import Mathlib
import Broadphase.Proofs.Grid.Filing
import Broadphase.Proofs.Handover

/-!
What a query of a grid hands over. The owning cell of an entity does not depend on what
the query remembers, because only owners that were found are remembered and an
entity displaced from its place is looked for again. So every accepted cell hands over
the entities that it owns, and these are, once each, the entities with an accepted cell
in their block.
-/

namespace Broadphase

namespace OwnerCache

/-- What is remembered is right. -/
def Knows (cache : OwnerCache) (ownerOf : Handle → Option CellKey) : Prop :=
  ∀ e k, cache.remembered? e = some k → ownerOf e = some k

variable {cache : OwnerCache} {ownerOf : Handle → Option CellKey}

theorem knows_empty (ownerOf : Handle → Option CellKey) : Knows empty ownerOf := by
  intro e k h
  simp [empty, remembered?] at h

theorem Knows.remember (h : cache.Knows ownerOf) {e : Handle} {k : CellKey}
    (howner : ownerOf e = some k) : (cache.remember e k).Knows ownerOf := by
  intro other k' hother
  have hget : (cache.remember e k)[place other] =
      if (place e).val = (place other).val then some (e, k) else cache[place other] :=
    Vector.getElem_set _ _
  rw [remembered?, hget] at hother
  by_cases hplace : (place e).val = (place other).val
  · simp only [hplace, if_true] at hother
    split_ifs at hother with heq
    rw [← heq, howner, hother]
  · simp only [hplace, if_false] at hother
    exact h other k' hother

/-- Asking for the owner gives it, whatever is remembered. -/
theorem Knows.owner (h : cache.Knows ownerOf) {e : Handle} (find : Unit → Option CellKey)
    (hfind : find () = ownerOf e) :
    (cache.owner e find).2 = ownerOf e ∧ (cache.owner e find).1.Knows ownerOf := by
  unfold OwnerCache.owner
  cases hremembered : cache.remembered? e with
  | some k => exact ⟨(h e k hremembered).symm, h⟩
  | none =>
      cases hfound : find () with
      | some k =>
          rw [hfound] at hfind
          exact ⟨hfind, h.remember hfind.symm⟩
      | none =>
          rw [hfound] at hfind
          exact ⟨hfind, h⟩

end OwnerCache

namespace Grid

variable {g : Grid} {accepts : Box → Bool} {clip : Option CellRange} {k : CellKey} {e : Handle}

/-- The part of the grid that a query looks at. -/
def InClip (clip : Option CellRange) (k : CellKey) : Prop := ∀ range ∈ clip, range.contains k = true

/-- The cell that hands over an entity. -/
def owner? (g : Grid) (accepts : Box → Bool) (clip : Option CellRange) (e : Handle) :
    Option CellKey :=
  (g.ranges[e]?).bind (g.firstAccepted accepts clip)

theorem firstAccepted_eq (g : Grid) (accepts : Box → Bool) (clip : Option CellRange)
    (range : CellRange) : g.firstAccepted accepts clip range =
      (clip.elim range range.intersection).find? fun k => accepts (g.cellBounds k) := by
  cases clip <;> rfl

theorem contains_clipped {range : CellRange} :
    (clip.elim range range.intersection).contains k = true ↔
      range.contains k = true ∧ InClip clip k := by
  cases clip with
  | none => simp [InClip]
  | some part => simp [InClip, CellRange.contains_intersection]

theorem firstAccepted_eq_some {range : CellRange}
    (h : g.firstAccepted accepts clip range = some k) :
    range.contains k = true ∧ InClip clip k ∧ accepts (g.cellBounds k) = true := by
  rw [firstAccepted_eq] at h
  obtain ⟨hcontains, haccepts⟩ := CellRange.of_find?_eq_some h
  obtain ⟨hrange, hclip⟩ := contains_clipped.mp hcontains
  exact ⟨hrange, hclip, haccepts⟩

theorem exists_firstAccepted {range : CellRange} (hrange : range.contains k = true)
    (hclip : InClip clip k) (haccepts : accepts (g.cellBounds k) = true) :
    ∃ k', g.firstAccepted accepts clip range = some k' := by
  rw [firstAccepted_eq]
  exact CellRange.find?_isSome_iff.mpr ⟨k, contains_clipped.mpr ⟨hrange, hclip⟩, haccepts⟩

/-- A step of a query hands over the elements of a list if what it starts with is
rightly remembered, and then ends with what is rightly remembered. -/
def Emits (ownerOf : Handle → Option CellKey)
    (step : (σ : Type) → [Sink σ] → OwnerCache × σ → Except Halt (OwnerCache × σ))
    (es : List Handle) : Prop :=
  ∀ (σ : Type) [Sink σ] (owners : OwnerCache) (out : σ), owners.Knows ownerOf →
    ∃ owners', owners'.Knows ownerOf ∧
      step σ (owners, out) = (es.foldlM Sink.put out).map fun out => (owners', out)

theorem Emits.nothing (ownerOf : Handle → Option CellKey) : Emits ownerOf (fun _ _ => .ok) [] :=
  fun _ _ owners _ h => ⟨owners, h, rfl⟩

theorem Emits.flatMap {α : Type} {ownerOf : Handle → Option CellKey} {items : List α}
    {found : α → List Handle}
    {step : α → (σ : Type) → [Sink σ] → OwnerCache × σ → Except Halt (OwnerCache × σ)}
    (h : ∀ a ∈ items, Emits ownerOf (step a) (found a)) :
    Emits ownerOf (fun σ _ state => items.foldlM (fun state a => step a σ state) state)
      (items.flatMap found) := by
  induction items with
  | nil => exact Emits.nothing ownerOf
  | cons a items ih =>
      intro σ _ owners out howners
      obtain ⟨owners₁, howners₁, hstep⟩ := h a List.mem_cons_self σ owners out howners
      beta_reduce
      rw [List.flatMap_cons, List.foldlM_cons, List.foldlM_append, hstep]
      cases hput : (found a).foldlM Sink.put out with
      | error halt => exact ⟨owners₁, howners₁, rfl⟩
      | ok out₁ =>
          obtain ⟨owners₂, howners₂, hrest⟩ :=
            ih (fun b hb => h b (List.mem_cons_of_mem a hb)) σ owners₁ out₁ howners₁
          exact ⟨owners₂, howners₂, hrest⟩

/-- An entity of an accepted cell is handed over exactly if the cell owns it. -/
theorem emits_emit (h : g.Filed) (hmem : e ∈ g.cellEntities k) (hclip : InClip clip k)
    (haccepts : accepts (g.cellBounds k) = true) :
    Emits (g.owner? accepts clip) (fun _ _ state => g.emit accepts clip k state e)
      (if g.owner? accepts clip e = some k then [e] else []) := by
  intro σ _ owners out howners
  obtain ⟨range, hrange, hcontains⟩ := (h.mem_iff e k).mp hmem
  have howner : g.owner? accepts clip e = g.firstAccepted accepts clip range := by
    rw [owner?, hrange, Option.bind_some]
  unfold emit
  simp only [hrange]
  by_cases hsingle : range.isSingle = true
  · -- the only cell of a block is the first accepted one
    have hown : g.owner? accepts clip e = some k := by
      obtain ⟨k', hk'⟩ := exists_firstAccepted hcontains hclip haccepts
      have heq : k' = k := (CellRange.eq_of_isSingle hsingle (firstAccepted_eq_some hk').1).trans
        (CellRange.eq_of_isSingle hsingle hcontains).symm
      rw [howner, hk', heq]
    refine ⟨owners, howners, ?_⟩
    rw [if_pos hsingle, if_pos hown]
    simp only [List.foldlM_cons, List.foldlM_nil]
    cases Sink.put out e <;> rfl
  · obtain ⟨hfound, hknows⟩ := OwnerCache.Knows.owner howners
      (fun _ => g.firstAccepted accepts clip range) howner.symm
    refine ⟨_, hknows, ?_⟩
    rw [if_neg hsingle]
    rw [hfound]
    split_ifs
    · simp only [List.foldlM_cons, List.foldlM_nil]
      cases Sink.put out e <;> rfl
    · rfl

/-- The entities that a cell hands over. -/
def ownedIn (g : Grid) (accepts : Box → Bool) (clip : Option CellRange) (k : CellKey) :
    List Handle :=
  if accepts (g.cellBounds k) then
    (g.cellEntities k).toList.filter (g.owner? accepts clip · = some k)
  else []

theorem mem_ownedIn (h : g.Filed) : e ∈ g.ownedIn accepts clip k ↔
    g.owner? accepts clip e = some k := by
  unfold ownedIn
  split_ifs with haccepts
  · rw [List.mem_filter, decide_eq_true_eq, Array.mem_toList_iff, h.mem_iff]
    refine ⟨And.right, fun howner => ⟨?_, howner⟩⟩
    obtain ⟨range, hrange, hfirst⟩ := Option.bind_eq_some_iff.mp howner
    exact ⟨range, hrange, (firstAccepted_eq_some hfirst).1⟩
  · simp only [List.not_mem_nil, false_iff]
    intro howner
    obtain ⟨range, -, hfirst⟩ := Option.bind_eq_some_iff.mp howner
    exact haccepts (firstAccepted_eq_some hfirst).2.2

theorem emits_emitCell (h : g.Filed) (hclip : InClip clip k) :
    Emits (g.owner? accepts clip) (fun _ _ state => g.emitCell accepts clip state k)
      (g.ownedIn accepts clip k) := by
  unfold ownedIn
  cases hget : g.cells[k]? with
  | none =>
      have hempty := cellEntities_of_none hget
      simp only [emitCell, hget, hempty, List.filter_nil, ite_self]
      exact Emits.nothing _
  | some occupants =>
      have hcell := cellEntities_of_some hget
      simp only [emitCell, hget, hcell]
      split_ifs with haccepts
      · have hfilter (es : List Handle) :
            es.filter (g.owner? accepts clip · = some k) =
              es.flatMap fun e => if g.owner? accepts clip e = some k then [e] else [] := by
          induction es with
          | nil => rfl
          | cons e es ih =>
              rw [List.filter_cons, List.flatMap_cons, ih]
              by_cases howner : g.owner? accepts clip e = some k <;> simp [howner]
        rw [hfilter]
        simp only [← Array.foldlM_toList]
        refine Emits.flatMap fun e hmem => emits_emit h ?_ hclip haccepts
        rw [hcell]
        exact Array.mem_toList_iff.mp hmem
      · exact Emits.nothing _

theorem handsOver_emitCells (h : g.Filed) {keys : List CellKey}
    (hkeys : ∀ k ∈ keys, InClip clip k) :
    HandsOver (fun _ _ out => g.emitCells accepts clip keys out)
      (keys.flatMap (g.ownedIn accepts clip)) := by
  intro σ _ out
  have hemits : Emits (g.owner? accepts clip)
      (fun _ _ state => keys.foldlM (fun state k => g.emitCell accepts clip state k) state)
      (keys.flatMap (g.ownedIn accepts clip)) :=
    Emits.flatMap fun k hk => emits_emitCell h (hkeys k hk)
  obtain ⟨owners, -, heq⟩ := hemits σ OwnerCache.empty out (OwnerCache.knows_empty _)
  beta_reduce at heq ⊢
  rw [emitCells, heq]
  cases (keys.flatMap (g.ownedIn accepts clip)).foldlM Sink.put out <;> rfl

section Owned

variable {keys : List CellKey}

theorem mem_owned (h : g.Filed)
    (hall : ∀ k, g.cellEntities k ≠ #[] → InClip clip k → k ∈ keys) :
    e ∈ keys.flatMap (g.ownedIn accepts clip) ↔ ∃ range k, g.ranges[e]? = some range ∧
      range.contains k = true ∧ InClip clip k ∧ accepts (g.cellBounds k) = true := by
  simp only [List.mem_flatMap, mem_ownedIn h]
  constructor
  · rintro ⟨k, -, howner⟩
    obtain ⟨range, hrange, hfirst⟩ := Option.bind_eq_some_iff.mp howner
    exact ⟨range, k, hrange, firstAccepted_eq_some hfirst⟩
  · rintro ⟨range, k, hrange, hcontains, hclip, haccepts⟩
    obtain ⟨k', hfirst⟩ := exists_firstAccepted hcontains hclip haccepts
    obtain ⟨hcontains', hclip', -⟩ := firstAccepted_eq_some hfirst
    refine ⟨k', hall k' ?_ hclip', Option.bind_eq_some_iff.mpr ⟨range, hrange, hfirst⟩⟩
    exact Array.ne_empty_of_mem ((mem_iff_of_range h hrange k').mpr hcontains')

theorem nodup_owned (h : g.Filed) (hnodup : keys.Nodup) :
    (keys.flatMap (g.ownedIn accepts clip)).Nodup := by
  refine List.nodup_flatMap.mpr ⟨fun k _ => ?_, hnodup.imp fun hne => ?_⟩
  · unfold ownedIn
    split_ifs
    · exact (h.nodup k).filter _
    · exact List.nodup_nil
  · rw [Function.onFun, List.disjoint_left]
    intro e hk hk'
    rw [mem_ownedIn h] at hk hk'
    exact hne (Option.some.inj (hk.symm.trans hk'))

end Owned

theorem mem_cells (hoccupied : g.cellEntities k ≠ #[]) : k ∈ g.cells := by
  by_contra hnone
  exact hoccupied (cellEntities_of_none (Std.ExtTreeMap.getElem?_eq_none hnone))

/-- Whether a query takes what is in a cell. -/
def Accepts (g : Grid) (region : Region) (k : CellKey) : Prop :=
  match region with
  | .point p => k = g.cellKey p
  | .sphere center radius =>
      0 ≤ radius ∧ (g.cellRange (.around center (.splat radius))).contains k = true ∧
        (g.cellBounds k).intersectsSphere center radius = true
  | .box query => (g.cellRange query).contains k = true
  | .frustum f => f.intersectsBox (g.cellBounds k) = true

/-- Which cells a query takes is told by their size. -/
theorem accepts_congr {g' : Grid} (hsize : g'.config.cellSize = g.config.cellSize)
    (region : Region) (k : CellKey) : g'.Accepts region k ↔ g.Accepts region k := by
  have hrange := cellRange_congr hsize
  have hbounds : g'.cellBounds k = g.cellBounds k := by
    simp only [cellBounds, hsize]
  cases region with
  | point p =>
      have hkey : g'.cellKey p = g.cellKey p := by
        simp only [cellKey, hsize]
      rw [Accepts, Accepts, hkey]
  | sphere center radius => rw [Accepts, Accepts, hrange, hbounds]
  | box query => rw [Accepts, Accepts, hrange]
  | frustum f => rw [Accepts, Accepts, hbounds]

end Grid

end Broadphase
