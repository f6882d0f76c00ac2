import Mathlib
import Broadphase.Proofs.Tree.Partition
import Broadphase.Proofs.Tree.Transcript

/-!
The journal as a replay of the structure. Whoever reads the messages and enters each block
that is opened, with the node and the depth that the message names, and strikes it out when it
is closed, meets no contradiction and has, after each change, the children of the divided
nodes. A change may close blocks on the way up from a node and open others, of the same
numbers, on the way down from the root, so the account is followed through every single
division and merge.
-/

namespace Broadphase

/-- The blocks that are open, with the slot and the depth of the node they were opened for. -/
abbrev OpenBlocks := Std.ExtTreeMap Nat (Nat × Nat)

/-- Enter one event. A block is opened only while it is closed, and closed only while it is
open and only by the node and at the depth that opened it. -/
def TreeEvent.enter (opened : OpenBlocks) : TreeEvent → Option OpenBlocks
  | .subdivided slot depth block =>
      if opened[block]? = none then some (opened.insert block (slot, depth)) else none
  | .merged slot depth block =>
      if opened[block]? = some (slot, depth) then some (opened.erase block) else none
  | .cleared _ => some ∅

def replay (opened : OpenBlocks) (events : List TreeEvent) : Option OpenBlocks :=
  events.foldlM TreeEvent.enter opened

/-- Read the entries of a journal and enter the events that they tell. -/
def replayJournal (opened : OpenBlocks) (entries : List Entry) : Option OpenBlocks :=
  entries.foldlM (fun opened entry => do (← TreeEvent.read? entry.message).enter opened) opened

/-- A fold that has come to a state goes on from there. -/
theorem foldlM_append_of_eq {σ α : Type} {f : σ → α → Option σ} {s s' : σ} {xs : List α}
    (h : xs.foldlM f s = some s') (ys : List α) : (xs ++ ys).foldlM f s = ys.foldlM f s' := by
  rw [List.foldlM_append, h]
  rfl

/-- The entries of a journal are entered as the events that they report. -/
theorem replayJournal_report (source : String) (opened : OpenBlocks) (events : List TreeEvent) :
    replayJournal opened (events.map (·.report source)) = replay opened events := by
  rw [replayJournal, List.foldlM_map]
  apply congrArg (fun step => events.foldlM step opened)
  funext opened event
  rw [TreeEvent.read?_report]
  rfl

/-- A journal that forwards everything. -/
theorem Journal.admitted_of_trace {j : Journal} (h : j.threshold = .trace)
    (entries : List Entry) : j.admitted entries = entries := by
  apply List.filter_eq_self.mpr
  intro entry _
  rw [Journal.accepts, h]
  exact decide_eq_true (Nat.zero_le _)

namespace Tree

variable {layout : Layout} {t t' t'' : Tree layout} {opened : OpenBlocks}
  {slot depth block i level other : Nat} {events more : List TreeEvent}

/-- The node in a slot in use, at a depth, has a block for children. -/
def Owns (t : Tree layout) (slot depth block : Nat) : Prop :=
  ∃ f, t.Live slot ∧ t.frame slot = some f ∧ f.depth = depth ∧ f.children = some block

theorem Owns.inUse (h : t.Owns slot depth block) (harena : t.Arena) : t.pool.InUse block := by
  obtain ⟨f, hlive, hf, -, hblock⟩ := h
  exact (harena.link slot f block hlive hf hblock).1

/-- Who owns which block depends on the frames of the slots in use only. -/
theorem owns_congr (hlive : ∀ i, t'.Live i ↔ t.Live i) (hframe : ∀ i, t'.frame i = t.frame i)
    (slot depth block : Nat) : t'.Owns slot depth block ↔ t.Owns slot depth block := by
  simp only [Owns, hlive, hframe]

/-- The divided node owns its new block, and nothing else changes hands. -/
theorem Divides.owns_iff {f : Node} (h : t.Divides slot f block t') (hlive : t.Live slot)
    (hf : t.frame slot = some f) (hleaf : f.children = none) :
    t'.Owns i level other ↔
      (other = block ∧ i = slot ∧ level = f.depth) ∨ t.Owns i level other := by
  constructor
  · rintro ⟨g, hi, hg, rfl, hother⟩
    rcases h.frame_cases hi hg with ⟨rfl, rfl⟩ | ⟨child, -, -, rfl⟩ | ⟨-, hold, hg⟩
    · exact Or.inl ⟨(Option.some.inj hother).symm, rfl, rfl⟩
    · cases hother
    · exact Or.inr ⟨g, hold, hg, rfl, hother⟩
  · rintro (⟨rfl, rfl, rfl⟩ | ⟨g, hi, hg, rfl, hother⟩)
    · exact ⟨_, (h.live_iff i).mpr (Or.inl hlive), h.frame_slot, rfl, rfl⟩
    · have hne : i ≠ slot := by
        rintro rfl
        obtain rfl := Option.some.inj (hf.symm.trans hg)
        cases hleaf.symm.trans hother
      exact ⟨g, (h.live_iff i).mpr (Or.inl hi),
        (h.frame_other i hne (h.not_mem_of_live hi)).trans hg, rfl, hother⟩

/-- The merged node loses its block, and nothing else changes hands. -/
theorem Merges.owns_iff {n : Node} (h : t.Merges slot n.bare block t') (harena : t.Arena)
    (hmerge : t.Mergeable slot n block) :
    t'.Owns i level other ↔ other ≠ block ∧ t.Owns i level other := by
  have hf := frame_of_node hmerge.node_eq
  constructor
  · rintro ⟨g, hi, hg, rfl, hother⟩
    rcases h.frame_cases hi hg with ⟨rfl, rfl⟩ | ⟨hne, hold, hg⟩
    · cases hother
    · refine ⟨?_, g, hold, hg, rfl, hother⟩
      rintro rfl
      exact hne (harena.owner_unique hold hmerge.live hg hf hother hmerge.children_eq)
  · rintro ⟨hdifferent, g, hi, hg, rfl, hother⟩
    have hne : i ≠ slot := by
      rintro rfl
      obtain rfl := Option.some.inj (hf.symm.trans hg)
      exact hdifferent (Option.some.inj (hother.symm.trans hmerge.children_eq))
    have hin : i ∉ layout.blockSlots block := by
      rw [Layout.mem_blockSlots]
      rintro ⟨child, hchild, rfl⟩
      obtain ⟨m, hm, hleaf, -⟩ := hmerge.child child hchild
      obtain rfl : m.bare = g := Option.some.inj ((frame_of_node hm).symm.trans hg)
      cases hleaf.symm.trans hother
    have hlive := (live_iff_of_frees h.frees i).mpr ⟨hi, hin⟩
    exact ⟨g, hlive, (h.frame_other i hne hlive).trans hg, rfl, hother⟩

/-- The open blocks are those that nodes own, each with its owner. -/
def Matches (t : Tree layout) (opened : OpenBlocks) : Prop :=
  ∀ block slot depth, opened[block]? = some (slot, depth) ↔ t.Owns slot depth block

theorem matches_empty (harena : t.Arena) (hfree : ∀ block, ¬ t.pool.InUse block) :
    t.Matches ∅ := by
  intro block slot depth
  rw [Std.ExtTreeMap.getElem?_empty]
  exact iff_of_false (by simp) fun howns => hfree block (howns.inUse harena)

/-- The events from one state to another can be entered, and the open blocks are those of the
one state before and those of the other after. -/
def Replays (t : Tree layout) (events : List TreeEvent) (t' : Tree layout) : Prop :=
  ∀ opened, t.Matches opened → ∃ opened', replay opened events = some opened' ∧
    t'.Matches opened'

namespace Replays

theorem append (h : Replays t events t') (h' : Replays t' more t'') :
    Replays t (events ++ more) t'' := by
  intro opened hmatches
  obtain ⟨opened', hreplay, hmatches'⟩ := h opened hmatches
  obtain ⟨opened'', hreplay', hmatches''⟩ := h' opened' hmatches'
  exact ⟨opened'', (foldlM_append_of_eq hreplay more).trans hreplay', hmatches''⟩

/-- What keeps the frames reports nothing. -/
theorem of_frame_eq (hlive : ∀ i, t'.Live i ↔ t.Live i)
    (hframe : ∀ i, t'.frame i = t.frame i) : Replays t [] t' := by
  intro opened hmatches
  refine ⟨opened, rfl, fun block slot depth => ?_⟩
  rw [hmatches, owns_congr hlive hframe]

theorem refl (t : Tree layout) : Replays t [] t := of_frame_eq (fun _ => Iff.rfl) fun _ => rfl

end Replays

theorem Divides.replays {f : Node} (h : t.Divides slot f block t') (harena : t.Arena)
    (hlive : t.Live slot) (hf : t.frame slot = some f) (hleaf : f.children = none) :
    Replays t [.subdivided slot f.depth block] t' := by
  intro opened hmatches
  have hfree (i level : Nat) : ¬ t.Owns i level block := fun howns =>
    h.takes.free_before (howns.inUse harena)
  have hclosed : opened[block]? = none := by
    cases hcase : opened[block]? with
    | none => rfl
    | some node => exact absurd ((hmatches block node.1 node.2).mp hcase) (hfree _ _)
  refine ⟨opened.insert block (slot, f.depth), ?_, ?_⟩
  · rw [replay, List.foldlM_cons, TreeEvent.enter, if_pos hclosed]
    rfl
  · intro other i level
    rw [record_insert, h.owns_iff hlive hf hleaf, ← hmatches]
    split_ifs with heq
    · subst heq
      simp only [hclosed, reduceCtorEq, or_false, true_and, Option.some.injEq, Prod.mk.injEq]
      exact and_congr eq_comm eq_comm
    · simp [heq]

theorem Merges.replays {n : Node} (h : t.Merges slot n.bare block t') (harena : t.Arena)
    (hmerge : t.Mergeable slot n block) : Replays t [.merged slot n.depth block] t' := by
  intro opened hmatches
  have hopen : opened[block]? = some (slot, n.depth) :=
    (hmatches block slot n.depth).mpr
      ⟨n.bare, hmerge.live, frame_of_node hmerge.node_eq, rfl, hmerge.children_eq⟩
  refine ⟨opened.erase block, ?_, ?_⟩
  · rw [replay, List.foldlM_cons, TreeEvent.enter, if_pos hopen]
    rfl
  · intro other i level
    rw [record_erase, h.owns_iff harena hmerge, ← hmatches]
    split_ifs with heq
    · simp [heq]
    · simp [heq]

theorem Divisions.replays {slots : List Nat} (h : Divisions t slots events t')
    (hwell : t.WellFormed) : Replays t events t' := by
  induction h with
  | nil t => exact .refl t
  | keep _ _ _ _ ih => exact ih hwell
  | divide hlive hn hneeds hdivides hrehouses _ ih =>
      have hfirst := Splits.of_divides hwell hlive hn hneeds hdivides hrehouses
      have hreplays := hdivides.replays hwell.arena hlive (frame_of_node hn)
        (leaf_of_needsSplit hneeds).1
      exact hreplays.append (ih hfirst.wellFormed)

theorem Mergers.replays {start : Option Nat} (h : Mergers t start events t')
    (hwell : t.WellFormed) : Replays t events t' := by
  induction h with
  | root t => exact .refl t
  | stop => exact .refl _
  | merge hmerge hmerges _ ih =>
      exact (hmerges.replays hwell.arena hmerge).append (ih (hmerges.wellFormed hwell hmerge))

theorem Inserts.replays {e : Handle} {box : Box} (h : t.Inserts e box events t')
    (hwell : t.WellFormed) : Replays t events t' := by
  obtain @⟨slot, n, hnew, -, -, hlive, hn, hfits, hdivisions⟩ := h
  have hstored : Replays t [] (t.store slot n e box) :=
    .of_frame_eq (fun _ => Iff.rfl) (frame_setNode_occupants hn _)
  exact hstored.append (hdivisions.replays (hwell.store hlive hn hnew hfits))

theorem Removes.replays {e : Handle} (h : t.Removes e events t') (hwell : t.WellFormed) :
    Replays t events t' := by
  cases h with
  | untracked => exact .refl t
  | @stored slot box n _ _ hrecord hn hmergers =>
      have hwithdrawn : Replays t [] (t.withdraw slot n e) :=
        .of_frame_eq (fun _ => Iff.rfl)
          (frame_setNode_occupants (t := { t with locations := t.locations.erase e }) hn _)
      exact hwithdrawn.append (hmergers.replays (hwell.withdraw hn hrecord))

theorem Updates.replays {e : Handle} {box : Box} (h : t.Updates e box events t')
    (hwell : t.WellFormed) : Replays t events t' := by
  have hspan : (t.widened box).WellFormed := hwell.withSpan _
  have hwidened : Replays t [] (t.widened box) := .of_frame_eq (fun _ => Iff.rfl) fun _ => rfl
  cases h with
  | insert hinserts => exact hwidened.append (hinserts.replays hspan)
  | stay => exact .of_frame_eq (fun _ => Iff.rfl) fun _ => rfl
  | move _ _ _ hremoves hinserts =>
      have hwell' := (hremoves.spec hspan).1
      exact hwidened.append ((hremoves.replays hspan).append (hinserts.replays hwell'))

/-- Whatever is open before, nothing is after the tree was emptied. -/
theorem replays_clear (h : t.WellFormed) (pooled : Nat) :
    Replays t [.cleared pooled] t.clear := by
  intro opened _
  exact ⟨∅, rfl, matches_empty (wellFormed_clear h).1.arena (not_inUse_clear h.arena)⟩

theorem Transition.replays {change : Change} (h : t.Transition change events t')
    (hwell : t.WellFormed) : Replays t events t' := by
  cases h with
  | update hupdates => exact hupdates.replays hwell
  | remove hremoves => exact hremoves.replays hwell
  | clear => exact replays_clear hwell _

/-- The entries about a sequence of changes can be entered from the open blocks before it, and
the open blocks after it are those of the state that the changes lead to. -/
theorem exists_replayJournal (h : t.WellFormed) (hmatches : t.Matches opened)
    (changes : List Change) :
    ∃ opened', replayJournal opened (SpatialIndex.journal t changes) = some opened' ∧
      (SpatialIndex.run t changes).Matches opened' := by
  induction changes generalizing t opened with
  | nil => exact ⟨opened, rfl, hmatches⟩
  | cons change changes ih =>
      obtain ⟨t', events, hstep, htransition⟩ := exists_transition h change
      obtain ⟨between, hfirst, hbetween⟩ := htransition.replays h opened hmatches
      obtain ⟨opened', hrest, hmatches'⟩ := ih (htransition.spec h).1 hbetween
      refine ⟨opened', ?_, ?_⟩
      · rw [SpatialIndex.journal, apply_eq_of_step hstep]
        rw [← replayJournal_report layout.source] at hfirst
        exact (foldlM_append_of_eq hfirst _).trans hrest
      · rwa [SpatialIndex.run_cons, apply_of_step hstep]

theorem owns_iff_reachable (harena : t.Arena) : t.Owns slot depth block ↔
    t.Reachable slot ∧ ∃ n, t.nodes[slot]? = some n ∧ n.depth = depth ∧
      n.children = some block := by
  rw [reachable_iff_live harena]
  constructor
  · rintro ⟨f, hlive, hf, hdepth, hblock⟩
    obtain ⟨n, hn, rfl⟩ := exists_node_of_frame hf
    exact ⟨hlive, n, hn, hdepth, hblock⟩
  · rintro ⟨hlive, n, hn, hdepth, hblock⟩
    exact ⟨n.bare, hlive, frame_of_node hn, hdepth, hblock⟩

theorem Matches.mem_iff (h : t.Matches opened) (harena : t.Arena) (block : Nat) :
    block ∈ opened ↔ t.ReachableBlock block := by
  rw [← Std.ExtTreeMap.isSome_getElem?_iff_mem, Option.isSome_iff_exists]
  constructor
  · rintro ⟨⟨slot, depth⟩, hopen⟩
    obtain ⟨hreachable, n, hn, -, hblock⟩ := (owns_iff_reachable harena).mp ((h _ _ _).mp hopen)
    exact ⟨slot, n, hreachable, hn, hblock⟩
  · rintro ⟨slot, n, hreachable, hn, hblock⟩
    exact ⟨(slot, n.depth), (h _ _ _).mpr
      ((owns_iff_reachable harena).mpr ⟨hreachable, n, hn, rfl, hblock⟩)⟩

/-- A state has one account of its open blocks. -/
theorem Matches.unique {opened' : OpenBlocks} (h : t.Matches opened) (h' : t.Matches opened') :
    opened = opened' := by
  apply Std.ExtTreeMap.ext_getElem?
  intro block
  apply Option.ext
  rintro ⟨slot, depth⟩
  exact (h block slot depth).trans (h' block slot depth).symm

/-- The messages of a tree that reports everything, from its creation on or only since it was
last emptied, can be entered one after the other: no block is opened while it is open or closed
while it is closed, and the node and the depth of a message that closes a block are those of
the message that opened it. After each change the open blocks are those that reachable nodes
have for children. -/
theorem journal_replays_of_run {config : TreeConfig} {t₀ : Tree layout}
    (hcreate : (create layout config).1 = .ok t₀) {j : Journal} (htrace : j.threshold = .trace)
    (changes : List Change) :
    let t := SpatialIndex.run t₀ changes
    ∃ opened, replayJournal ∅ (j.admitted (SpatialIndex.journal t₀ changes)) = some opened ∧
      (∀ before after, changes = before ++ .clear :: after →
        replayJournal ∅ (j.admitted (SpatialIndex.journal
          (SpatialIndex.run t₀ (before ++ [.clear])) after)) = some opened) ∧
      (∀ block slot depth, opened[block]? = some (slot, depth) ↔
        t.Reachable slot ∧ ∃ n, t.nodes[slot]? = some n ∧ n.depth = depth ∧
          n.children = some block) ∧
      ∀ block, block ∈ opened ↔ t.ReachableBlock block := by
  intro t
  obtain ⟨rfl, hworld⟩ := eq_empty_of_create hcreate
  obtain ⟨hwell, -⟩ := wellFormed_of_create hcreate changes
  have hempty : (empty config : Tree layout).Matches ∅ :=
    matches_empty (arena_empty hworld) fun block huse => Nat.not_lt_zero block huse.1
  obtain ⟨opened, hreplay, hmatches⟩ :=
    exists_replayJournal (wellFormed_empty hworld) hempty changes
  simp only [Journal.admitted_of_trace htrace]
  refine ⟨opened, hreplay, ?_, ?_, hmatches.mem_iff hwell.arena⟩
  · rintro before after rfl
    have hbefore := (wellFormed_of_create hcreate before).1
    have hclear : SpatialIndex.run (empty config : Tree layout) (before ++ [.clear]) =
        (SpatialIndex.run (empty config : Tree layout) before).clear := by
      rw [SpatialIndex.run_append, SpatialIndex.run_cons, SpatialIndex.run_nil]
      exact apply_of_step rfl
    have hrest : SpatialIndex.run (SpatialIndex.run (empty config : Tree layout) before).clear after =
        t := by
      rw [← hclear, ← SpatialIndex.run_append, List.append_assoc, List.singleton_append]
    have hcleared := (wellFormed_clear hbefore).1
    obtain ⟨opened', hafter, hmatches'⟩ := exists_replayJournal hcleared
      (matches_empty hcleared.arena (not_inUse_clear hbefore.arena)) after
    have hsame : t.Matches opened' := hrest ▸ hmatches'
    rw [hclear, hafter, hsame.unique hmatches]
  · intro block slot depth
    rw [hmatches, owns_iff_reachable hwell.arena]

/-- After a tree was emptied one of its nodes merges and another one takes the same block. Each
message fits the ones before it, and the block is open for the second node. -/
theorem journal_replays_of_run_reuse :
    let t₀ : Octree := empty { maxDepth := 4, maxOccupants := 1, pooling := false }
    let after : List Change := [.update ⟨1, 0⟩ (.splat 10) none, .update ⟨2, 0⟩ (.splat 11) none,
      .update ⟨3, 0⟩ (.splat 300) none, .remove ⟨1, 0⟩, .update ⟨2, 0⟩ (.splat 301) none]
    let entries := SpatialIndex.journal (SpatialIndex.run t₀ ([] ++ [.clear])) after
    entries.map (·.message) =
      ["Subdivided node 0 at depth 0 (block 0)", "Subdivided node 8 at depth 1 (block 1)",
        "Subdivided node 9 at depth 2 (block 2)", "Subdivided node 17 at depth 3 (block 3)",
        "Merged node 17 at depth 3 (block 3)", "Subdivided node 24 at depth 3 (block 3)"] ∧
    (replayJournal ∅ entries).bind (·[3]?) = some (24, 3) ∧
    (SpatialIndex.run t₀ (.clear :: after)).ReachableBlock 3 := by
  intro t₀ after entries
  have hcreate : (create .oct { maxDepth := 4, maxOccupants := 1, pooling := false }).1 = .ok t₀ :=
    create_eq_ok (by decide +kernel)
  have hopen : (replayJournal ∅ entries).bind (·[3]?) = some (24, 3) := by
    decide +kernel
  obtain ⟨opened, -, hafter, -, hblocks⟩ := journal_replays_of_run hcreate
    (j := { threshold := .trace }) rfl (.clear :: after)
  have hreplay := hafter [] after rfl
  rw [Journal.admitted_of_trace rfl] at hreplay
  refine ⟨by decide +kernel, hopen, (hblocks 3).mp ?_⟩
  rw [hreplay, Option.bind_some] at hopen
  rw [← Std.ExtTreeMap.isSome_getElem?_iff_mem, hopen]
  rfl

end Tree

end Broadphase
