/-!
Entity handles. The index stores and compares handles and never looks into the
generation; handles are ordered by identifier and then by generation.
-/

namespace Broadphase

/-- The name of an entity: an identifier and the generation it was issued in. -/
structure Handle where
  id : UInt32
  generation : UInt32
  deriving DecidableEq, Inhabited, Repr

namespace Handle

/-- Identifiers decide the order, generations break ties. -/
instance : Ord Handle :=
  ⟨compareLex (compareOn Handle.id) (compareOn Handle.generation)⟩

instance : Std.TransOrd Handle :=
  inferInstanceAs (Std.TransCmp (compareLex (compareOn Handle.id) (compareOn Handle.generation)))

instance : Std.LawfulEqOrd Handle where
  eq_of_compare {a b} h := by
    have hparts : compare a.id b.id = .eq ∧ compare a.generation b.generation = .eq :=
      Ordering.then_eq_eq.mp h
    cases a
    cases b
    exact congr (congrArg mk (Std.LawfulEqOrd.eq_of_compare hparts.1))
      (Std.LawfulEqOrd.eq_of_compare hparts.2)

end Handle

end Broadphase
