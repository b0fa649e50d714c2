import Mathlib.Data.List.Permutation
import NodeSmith.Proofs.Union.Keys
import NodeSmith.Proofs.Union.Trimming

set_option autoImplicit false

namespace NodeSmith.Union

open Text (Free isBlank removeBlanks)

theorem spaced_key (text : String) :
    spaced (key text) = " | ".intercalate (sorted (tightSegments text)) := by
  rw [spaced, separate_of_tight " | " (key_free_blank text), segments_key]

/-- A name without white space gets none in its identifier. -/
theorem free_identifier {text : String} (tight : Free isBlank text) :
    Free isBlank (identifier text) := by
  rw [identifier, separate_of_tight "Or" tight]
  apply Text.free_intercalate
  · decide
  · intro segment found c member
    exact tight c (mem_of_mem_segments found member)

/-- A canonical form has white space around its bars only, and none in its identifier. -/
theorem free_identifier_of_canonical {text shown : String} (made : canonical text = some shown) :
    Free isBlank (identifier shown) := by
  rw [canonical] at made
  split at made
  · cases made
  · cases made
    rw [identifier, separate_spaced]
    exact free_identifier (key_free_blank text)

theorem canonical_of_canonical {text shown : String} (made : canonical text = some shown) :
    canonical shown = some shown := by
  rw [canonical] at made
  split at made
  · cases made
  · rename_i visible
    cases made
    rw [canonical, key_spaced_key, if_neg visible]

theorem canonical_ne_empty {text shown : String} (made : canonical text = some shown) :
    shown ≠ "" := by
  rintro rfl
  have again := canonical_of_canonical made
  rw [canonical, if_pos key_empty] at again
  cases again

/-- The canonical form of a text with a visible character is the spaced form of its key. -/
theorem canonical_of_visible {text : String} (visible : Text.Visible text) :
    canonical text = some (spaced (key text)) := by
  rw [canonical, if_neg (key_ne_empty visible)]

theorem canonicalOf_eq_spaced_key {text : String} (visible : Text.Visible text) :
    canonicalOf (.text text) = .ok (some (spaced (key text))) := by
  rw [canonicalOf, ofValue_text, if_neg visible.ne_empty, canonical_of_visible visible]

theorem canonicalOf_visible {text : String} (visible : Text.Visible text) :
    canonicalOf (.text text) = .ok (some (" | ".intercalate (sorted (tightSegments text)))) := by
  rw [canonicalOf_eq_spaced_key visible, spaced_key]

theorem keyOf_of_ne_empty {text : String} (given : text ≠ "") :
    keyOf (.text text) = .ok (some (key text)) := by
  rw [keyOf, ofValue_text, if_neg given]

/-- Spaced forms of keys can be told apart as well as the keys: each has its key. -/
theorem spaced_key_eq_spaced_key_iff (first second : String) :
    spaced (key first) = spaced (key second) ↔ SameMembers first second := by
  rw [← key_eq_key_iff]
  constructor
  · intro same
    have keys := congrArg key same
    rwa [key_spaced_key, key_spaced_key] at keys
  · intro same
    rw [same]

/-- Two texts have one key, and where something is visible one canonical form, exactly if the
stretches between their bars are the same, as often, once white space is gone. Of the key and the
canonical form each can be made from the other. -/
theorem forms_determine_members :
    (∀ first second : String, first ≠ "" → second ≠ "" →
      ∃ tight other, keyOf (.text first) = .ok (some tight) ∧
        keyOf (.text second) = .ok (some other) ∧
        (tight = other ↔
          (segments (removeBlanks first)).Perm (segments (removeBlanks second)))) ∧
    (∀ first second : String, Text.Visible first → Text.Visible second →
      ∃ shown other, canonicalOf (.text first) = .ok (some shown) ∧
        canonicalOf (.text second) = .ok (some other) ∧
        (shown = other ↔
          (segments (removeBlanks first)).Perm (segments (removeBlanks second)))) ∧
    ∀ text : String, Text.Visible text →
      ∃ tight shown, keyOf (.text text) = .ok (some tight) ∧
        canonicalOf (.text text) = .ok (some shown) ∧
        keyOf (.text shown) = .ok (some tight) ∧
        canonicalOf (.text shown) = .ok (some shown) ∧
        spacedOf (.text tight) = .ok (some shown) := by
  refine ⟨?_, ?_, ?_⟩
  · intro first second some others
    refine ⟨_, _, keyOf_of_ne_empty some, keyOf_of_ne_empty others, ?_⟩
    rw [segments_removeBlanks, segments_removeBlanks]
    exact key_eq_key_iff first second
  · intro first second visible others
    refine ⟨_, _, canonicalOf_eq_spaced_key visible, canonicalOf_eq_spaced_key others, ?_⟩
    rw [segments_removeBlanks, segments_removeBlanks]
    exact spaced_key_eq_spaced_key_iff first second
  · intro text visible
    have made := canonical_of_visible visible
    have shown : spaced (key text) ≠ "" := canonical_ne_empty made
    refine ⟨_, _, keyOf_of_ne_empty visible.ne_empty, canonicalOf_eq_spaced_key visible, ?_, ?_,
      spacedOf_of_ne_empty (key_ne_empty visible)⟩
    · rw [keyOf_of_ne_empty shown, key_spaced_key]
    · rw [canonicalOf, ofValue_text, if_neg shown, canonical_of_canonical made]

theorem sample_forms_determine_members :
    (∃ tight other, keyOf (.text "B||A") = .ok (some tight) ∧
      keyOf (.text "A|B") = .ok (some other) ∧ tight ≠ other) ∧
    (∃ shown, canonicalOf (.text "B |A|B") = .ok (some shown) ∧
      canonicalOf (.text "\tB|B| A") = .ok (some shown)) ∧
    spacedOf (.text "A|B") = canonicalOf (.text " B |A") := by
  obtain ⟨keys, forms, renderings⟩ := forms_determine_members
  refine ⟨?_, ?_, ?_⟩
  · obtain ⟨tight, other, first, second, same⟩ := keys "B||A" "A|B" (by decide) (by decide)
    refine ⟨tight, other, first, second, ?_⟩
    rw [ne_eq, same]
    decide
  · obtain ⟨shown, other, first, second, same⟩ :=
      forms "B |A|B" "\tB|B| A" ⟨'B', by decide, rfl⟩ ⟨'B', by decide, rfl⟩
    have equal : shown = other := same.mpr (by decide)
    exact ⟨shown, first, equal ▸ second⟩
  · obtain ⟨tight, shown, keyed, made, -, -, spaced⟩ :=
      renderings " B |A" ⟨'B', by decide, rfl⟩
    have known : keyOf (.text " B |A") = .ok (some "A|B") := by cbv
    rw [known] at keyed
    cases keyed
    rw [spaced, made]

end NodeSmith.Union

namespace NodeSmith.Text

theorem removeBlanks_removeBlanks (text : String) :
    removeBlanks (removeBlanks text) = removeBlanks text :=
  removeBlanks_of_free (free_removeBlanks text)

end NodeSmith.Text
