import Broadphase.Grid.Cell

/-!
Going through the cells of a block. A cursor stands before a cell of its block
or behind the last one. A step reads that cell and moves on as an odometer does:
the first coordinate that is not at its upper end is raised, and those before it
start over. So the first coordinate runs fastest, which is also the order in
which cells are compared. A search reads no cell behind the one it finds.
-/

namespace Broadphase

namespace CellRange

/-- The cell behind another one, unless that is the last one of the block. -/
def after? (r : CellRange) (k : CellKey) : Option CellKey :=
  if k.x < r.max.x then some { k with x := k.x + 1 }
  else if k.y < r.max.y then some { k with x := r.min.x, y := k.y + 1 }
  else if k.z < r.max.z then some { k with x := r.min.x, y := r.min.y, z := k.z + 1 }
  else none

/-- What a step does to the numbers that the coordinates stand for. One of them is
raised by one, without overflow because it is below its upper end. Those before
it are at theirs and start over. -/
inductive Carries (r : CellRange) (j k : CellKey) : Prop where
  | x (below : j.x < r.max.x) (raised : k.x.toInt = j.x.toInt + 1) (y_eq : k.y = j.y)
      (z_eq : k.z = j.z)
  | y (x_ends : r.max.x ≤ j.x) (below : j.y < r.max.y) (x_eq : k.x = r.min.x)
      (raised : k.y.toInt = j.y.toInt + 1) (z_eq : k.z = j.z)
  | z (x_ends : r.max.x ≤ j.x) (y_ends : r.max.y ≤ j.y) (below : j.z < r.max.z)
      (x_eq : k.x = r.min.x) (y_eq : k.y = r.min.y) (raised : k.z.toInt = j.z.toInt + 1)

theorem toInt_raise {a hi : Int32} (h : a < hi) : (a + 1).toInt = a.toInt + 1 := by
  have hlt := Int32.lt_iff_toInt_lt.mp h
  have hlow := a.le_toInt
  have hhigh := hi.toInt_lt
  rw [Int32.toInt_add, Int32.toInt_one]
  exact Int.bmod_eq_of_le (by omega) (by omega)

theorem carries_of_after? {r : CellRange} {j k : CellKey} (h : r.after? j = some k) :
    r.Carries j k := by
  unfold after? at h
  split at h
  · rename_i hx
    cases h
    exact .x hx (toInt_raise hx) rfl rfl
  split at h
  · rename_i hx hy
    cases h
    exact .y (Int32.not_lt.mp hx) hy rfl (toInt_raise hy) rfl
  split at h
  · rename_i hx hy hz
    cases h
    exact .z (Int32.not_lt.mp hx) (Int32.not_lt.mp hy) hz rfl rfl (toInt_raise hz)
  · cases h

theorem width_lt_width {a b hi : Int32} (hraised : b.toInt = a.toInt + 1) (hbelow : a < hi) :
    width b hi < width a hi := by
  have hlt := Int32.lt_iff_toInt_lt.mp hbelow
  unfold width
  omega

theorem width_le (lo hi : Int32) : width lo hi ≤ 4294967296 := by
  have hlow := lo.le_toInt
  have hhigh := hi.toInt_lt
  unfold width
  omega

/-- A number that falls with every step. A coordinate counts for more than all
that the coordinates before it regain when they start over. -/
def remaining (r : CellRange) (k : CellKey) : Nat :=
  (width k.z r.max.z * 4294967297 + width k.y r.max.y) * 4294967297 + width k.x r.max.x

theorem Carries.remaining_lt {r : CellRange} {j k : CellKey} (h : r.Carries j k) :
    r.remaining k < r.remaining j := by
  have hx := width_le r.min.x r.max.x
  have hy := width_le r.min.y r.max.y
  unfold remaining
  cases h with
  | x below raised y_eq z_eq =>
      have hless := width_lt_width raised below
      rw [y_eq, z_eq]
      omega
  | y _ below x_eq raised z_eq =>
      have hless := width_lt_width raised below
      rw [x_eq, z_eq]
      omega
  | z _ _ below x_eq y_eq raised =>
      have hless := width_lt_width raised below
      rw [x_eq, y_eq]
      omega

end CellRange

/-- A place in a block: before one of its cells, or behind the last one. -/
structure CellCursor where
  range : CellRange
  upcoming : Option CellKey
  deriving DecidableEq, Repr

/-- The place before the first cell. In an empty block it is behind the last one,
however long the block is on its other axes. -/
def CellRange.cursor (r : CellRange) : CellCursor := ⟨r, if r.isEmpty then none else some r.min⟩

namespace CellCursor

/-- Read the upcoming cell and move behind it. -/
def next (c : CellCursor) : Option CellKey × CellCursor :=
  match c.upcoming with
  | none => (none, c)
  | some k => (some k, { c with upcoming := c.range.after? k })

def remaining (c : CellCursor) : Nat :=
  match c.upcoming with
  | none => 0
  | some k => c.range.remaining k + 1

theorem next_of_none {c : CellCursor} (h : c.upcoming = none) : c.next = (none, c) := by
  rw [next, h]

theorem next_of_some {c : CellCursor} {k : CellKey} (h : c.upcoming = some k) :
    c.next = (some k, ⟨c.range, c.range.after? k⟩) := by
  rw [next, h]

theorem remaining_next {c : CellCursor} {k : CellKey} (h : c.upcoming = some k) :
    c.next.2.remaining < c.remaining := by
  rw [next_of_some h]
  simp only [remaining, h]
  split
  · exact Nat.succ_pos _
  · rename_i hafter
    exact Nat.succ_lt_succ (CellRange.carries_of_after? hafter).remaining_lt

/-- What holds behind the last cell, and before a cell if it holds behind that
cell, holds everywhere. -/
@[elab_as_elim]
theorem induction {motive : CellCursor → Prop}
    (done : ∀ c, c.upcoming = none → motive c)
    (step : ∀ c k, c.upcoming = some k → motive ⟨c.range, c.range.after? k⟩ → motive c)
    (c : CellCursor) : motive c := by
  induction hn : c.remaining using Nat.strongRecOn generalizing c with
  | _ n ih =>
    cases h : c.upcoming with
    | none => exact done c h
    | some k =>
      have hless := remaining_next h
      rw [next_of_some h, hn] at hless
      exact step c k h (ih _ hless _ rfl)

/-- Go through the cells with a value that each of them changes, until it is
done or there are no more cells. -/
def fold {β : Type} (f : β → CellKey → ForInStep β) (b : β) (c : CellCursor) : β :=
  match _hnext : c.next with
  | (none, _) => b
  | (some k, rest) =>
      match f b k with
      | .done b => b
      | .yield b => rest.fold f b
termination_by c.remaining
decreasing_by
  cases hupcoming : c.upcoming with
  | none =>
    rw [next_of_none hupcoming] at _hnext
    cases _hnext
  | some _ =>
    have hless := remaining_next hupcoming
    rwa [_hnext] at hless

section Fold

variable {β : Type} (f : β → CellKey → ForInStep β) (b : β) {c : CellCursor} {k : CellKey}

theorem fold_of_none (h : c.upcoming = none) : c.fold f b = b := by
  rw [fold, next_of_none h]

theorem fold_of_some (h : c.upcoming = some k) :
    c.fold f b =
      match f b k with
      | .done b => b
      | .yield b => fold f b ⟨c.range, c.range.after? k⟩ := by
  rw [fold, next_of_some h]

end Fold

/-- The cells from the cursor on. -/
def toList (c : CellCursor) : List CellKey :=
  (c.fold (fun seen k => .yield (seen.push k)) #[]).toList

/-- The first cell from the cursor on that passes a test. -/
def find? (c : CellCursor) (p : CellKey → Bool) : Option CellKey :=
  c.fold (fun _ k => if p k then .done (some k) else .yield none) none

section ToList

variable {c : CellCursor} {k : CellKey}

theorem fold_push (seen : Array CellKey) (c : CellCursor) :
    (c.fold (fun seen k => .yield (seen.push k)) seen).toList = seen.toList ++ c.toList := by
  unfold toList
  induction c using induction generalizing seen with
  | done c h => rw [fold_of_none _ _ h, fold_of_none _ _ h, List.append_nil]
  | step c k h ih =>
      rw [fold_of_some _ _ h, fold_of_some _ _ h]
      simp only
      rw [ih (seen.push k), ih (#[].push k)]
      simp

theorem toList_of_none (h : c.upcoming = none) : c.toList = [] := by
  rw [toList, fold_of_none _ _ h]

theorem toList_of_some (h : c.upcoming = some k) :
    c.toList = k :: toList ⟨c.range, c.range.after? k⟩ := by
  rw [toList, fold_of_some _ _ h]
  exact fold_push (#[].push k) _

theorem find?_eq_find?_toList (c : CellCursor) (p : CellKey → Bool) :
    c.find? p = c.toList.find? p := by
  induction c using induction with
  | done c h => rw [find?, fold_of_none _ _ h, toList_of_none h, List.find?_nil]
  | step c k h ih =>
      rw [find?, fold_of_some _ _ h, toList_of_some h, List.find?_cons]
      cases hp : p k with
      | true => rfl
      | false => exact ih

end ToList

end CellCursor

namespace CellRange

/-- The cells of the block in order. -/
def toList (r : CellRange) : List CellKey := r.cursor.toList

/-- The first cell of the block that passes a test. -/
def find? (r : CellRange) (p : CellKey → Bool) : Option CellKey := r.cursor.find? p

theorem find?_eq_find?_toList (r : CellRange) (p : CellKey → Bool) :
    r.find? p = r.toList.find? p :=
  r.cursor.find?_eq_find?_toList p

end CellRange

end Broadphase
