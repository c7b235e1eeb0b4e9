/-!
# Nested names

A name of dotted labels lies under a zone if it ends with the zone behind a dot. Two names are nested if
they are the same or one lies under the other.
-/
namespace Library

variable {α : Type} {dot : α} {zone name label low mid high : List α}

def Under (dot : α) (zone name : List α) : Prop := dot :: zone <:+ name

def Nested (dot : α) (name other : List α) : Prop :=
  name = other ∨ Under dot other name ∨ Under dot name other

/-- The name lies under the zone, but neither is nor lies under the zone's own label. -/
structure Strays (dot : α) (label zone name : List α) : Prop where
  under : Under dot zone name
  other : name ≠ label ++ dot :: zone
  outside : ¬ Under dot (label ++ dot :: zone) name

theorem Under.length_lt (under : Under dot zone name) : zone.length < name.length := by
  have bound := under.length_le
  rw [List.length_cons] at bound
  omega

theorem Under.trans (lower : Under dot mid low) (upper : Under dot high mid) : Under dot high low :=
  List.IsSuffix.trans upper ((List.suffix_cons dot mid).trans lower)

theorem under_own_label (label zone : List α) : Under dot zone (label ++ dot :: zone) :=
  List.suffix_append _ _

/-- A label in front of a name adds only the name itself as a zone. -/
theorem under_label_iff (free : dot ∉ label) :
    Under dot zone (label ++ dot :: name) ↔ zone = name ∨ Under dot zone name := by
  constructor
  · rintro ⟨front, whole⟩
    rcases List.append_eq_append_iff.mp whole with ⟨rest, label_eq, tail_eq⟩ | ⟨rest, -, tail_eq⟩
    · -- the dot of the zone would be one of the label
      cases rest with
      | nil => exact .inl (List.cons.inj tail_eq).2
      | cons c rest =>
        rw [(List.cons.inj tail_eq).1] at free
        exact absurd (by rw [label_eq]; simp) free
    · cases rest with
      | nil => exact .inl (List.cons.inj tail_eq).2.symm
      | cons c rest => exact .inr ⟨rest, (List.cons.inj tail_eq).2.symm⟩
  · rintro (rfl | under)
    · exact under_own_label label zone
    · exact (under_own_label label name).trans under

namespace Nested

theorem symm (nested : Nested dot name zone) : Nested dot zone name := by
  rcases nested with same | below | above
  · exact .inl same.symm
  · exact .inr (.inr below)
  · exact .inr (.inl above)

theorem comm : Nested dot name zone ↔ Nested dot zone name := ⟨symm, symm⟩

theorem of_label (free : dot ∉ label) (nested : Nested dot (label ++ dot :: zone) name) :
    Nested dot zone name := by
  rcases nested with rfl | below | above
  · exact .inr (.inr (under_own_label label zone))
  · rcases (under_label_iff free).mp below with same | under
    · exact .inl same.symm
    · exact .inr (.inl under)
  · exact .inr (.inr (above.trans (under_own_label label zone)))

/-- A label in front of a name makes a difference only to what strays from it. -/
theorem label_iff (free : dot ∉ label) :
    (Nested dot zone name ↔ Nested dot (label ++ dot :: zone) name) ↔ ¬ Strays dot label zone name := by
  constructor
  · intro same strays
    rcases same.mp (.inr (.inr strays.under)) with whole | below | above
    · exact strays.other whole.symm
    · rcases (under_label_iff free).mp below with rfl | under
      · exact absurd strays.under.length_lt (Nat.lt_irrefl _)
      · have longer := strays.under.length_lt
        have shorter := under.length_lt
        omega
    · exact strays.outside above
  · intro stays
    refine ⟨?_, of_label free⟩
    rintro (rfl | below | above)
    · exact .inr (.inl (under_own_label label zone))
    · exact .inr (.inl ((under_label_iff free).mpr (.inr below)))
    · by_cases whole : name = label ++ dot :: zone
      · exact .inl whole.symm
      · by_cases under : Under dot (label ++ dot :: zone) name
        · exact .inr (.inr under)
        · exact absurd ⟨above, whole, under⟩ stays

theorem label_iff_right (free : dot ∉ label) :
    (Nested dot name zone ↔ Nested dot name (label ++ dot :: zone)) ↔ ¬ Strays dot label zone name :=
  (iff_congr comm comm).trans (label_iff free)

end Nested

end Library
