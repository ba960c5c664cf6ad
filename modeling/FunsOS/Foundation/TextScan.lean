import Mathlib.Data.List.DropRight

/-!
# Scanning text with a bounded buffer

`scan keep limit text` is the loop that copies characters into a buffer while they are to
be kept and the buffer has room: the characters copied and the text that is left. A word
of kept characters is copied whole when it fits and something else, or nothing, follows.
-/

set_option autoImplicit false

namespace FunsOS.Foundation

open List

variable {Char : Type} {keep : Char → Bool}

/-- Copy characters while they are kept, at most `limit` of them. -/
def scan (keep : Char → Bool) : Nat → List Char → List Char × List Char
  | 0, text => ([], text)
  | _ + 1, [] => ([], [])
  | limit + 1, c :: text =>
    if keep c then (c :: (scan keep limit text).1, (scan keep limit text).2) else ([], c :: text)

/-- No character that is kept comes first. -/
def Stops (keep : Char → Bool) (text : List Char) : Prop := ∀ c ∈ text.head?, keep c = false

theorem Stops.nil : Stops keep [] := by simp [Stops]

variable {c : Char} {text word rest : List Char} {limit : Nat}

theorem Stops.cons (stop : keep c = false) : Stops keep (c :: text) := by
  simpa [Stops] using stop

/-- A word that fits is copied whole. -/
theorem scan_append (kept : ∀ c ∈ word, keep c) (fits : word.length ≤ limit)
    (stops : Stops keep rest) : scan keep limit (word ++ rest) = (word, rest) := by
  induction word generalizing limit with
  | nil =>
    cases limit with
    | zero => rfl
    | succ limit =>
      cases rest with
      | nil => rfl
      | cons c rest =>
        have stop : keep c = false := stops c rfl
        simp [scan, stop]
  | cons c word ih =>
    obtain ⟨limit, rfl⟩ : ∃ n, limit = n + 1 := ⟨limit - 1, by simp at fits; omega⟩
    have here : keep c := kept c (by simp)
    have behind := @ih limit (fun d member => kept d (by simp [member])) (by simpa using fits)
    simp [scan, here, behind]

/-- What is copied does not depend on what follows a character that is not kept. -/
theorem scan_fst_append (stop : keep c = false) :
    (scan keep limit (text ++ c :: rest)).1 = (scan keep limit text).1 := by
  induction text generalizing limit with
  | nil => cases limit <;> simp [scan, stop]
  | cons d text ih =>
    cases limit with
    | zero => rfl
    | succ limit =>
      rw [cons_append, scan, scan]
      split
      · rw [ih]
      · rfl

theorem scan_suffix (keep : Char → Bool) (limit : Nat) (text : List Char) :
    (scan keep limit text).2 <:+ text := by
  induction text generalizing limit with
  | nil => cases limit <;> exact suffix_refl _
  | cons c text ih =>
    cases limit with
    | zero => exact suffix_refl _
    | succ limit =>
      rw [scan]
      split
      · exact (ih limit).trans (suffix_cons c text)
      · exact suffix_refl _

/-- Skipping what is kept stops where the scan stops. -/
theorem dropWhile_append_of_stops (kept : ∀ c ∈ word, keep c) (stops : Stops keep rest) :
    (word ++ rest).dropWhile keep = rest := by
  rw [dropWhile_append_of_pos kept]
  cases rest with
  | nil => rfl
  | cons c rest => rw [dropWhile_cons_of_neg (by simpa using stops c rfl)]

theorem dropWhile_of_stops (stops : Stops keep text) : text.dropWhile keep = text :=
  @dropWhile_append_of_stops _ keep [] text (by simp) stops

/-!
## The segments of a string between separators

`segments sep s` are the nonempty pieces of a string between its separators. Separators at the
ends of a string or next to each other do not matter: the segments of two strings joined by a
separator are those of the first and those of the second, and stripping separators from either
end changes nothing. A loop that skips separators and reads up to the next one meets the
segments in order (`segments_cons_of_ne`).
-/

universe u

variable {α : Type u} [DecidableEq α]

/-- The nonempty pieces of a string between separators. -/
def segments (sep : α) : List α → List (List α)
  | [] => []
  | c :: s =>
    if c = sep then segments sep s
    else if s.head?.all (· == sep) then [c] :: segments sep s
    else (segments sep s).modifyHead (c :: ·)

variable {sep : α} {s : List α}

@[simp] theorem segments_nil : segments sep [] = [] := rfl

@[simp] theorem segments_sep : segments sep (sep :: s) = segments sep s := by
  simp [segments]

/-- A string that starts with another character than the separator has a segment. -/
theorem segments_ne_nil {c : α} (other : c ≠ sep) : segments sep (c :: s) ≠ [] := by
  induction s generalizing c with
  | nil => simp [segments, other]
  | cons d s ih =>
    by_cases same : d = sep
    · simp [segments, other, same]
    · have nonempty := ih same
      rw [segments, if_neg other, if_neg (by simpa using same)]
      cases first : segments sep (d :: s) with
      | nil => exact absurd first nonempty
      | cons w ws => simp

/-- Joining two strings by a separator joins their segments. -/
theorem segments_append {a b : List α} :
    segments sep (a ++ sep :: b) = segments sep a ++ segments sep b := by
  induction a with
  | nil => simp
  | cons c a ih =>
    by_cases same : c = sep
    · simp [same, ih]
    · cases a with
      | nil => simp [segments, same]
      | cons d a =>
        by_cases here : d = sep
        · rw [cons_append, segments, segments, if_neg same, if_neg same,
            if_pos (by simp [here]), if_pos (by simp [here]), ih]
          rfl
        · rw [cons_append, segments, segments, if_neg same, if_neg same,
            if_neg (by simpa using here), if_neg (by simpa using here), ih]
          cases first : segments sep (d :: a) with
          | nil => exact absurd first (segments_ne_nil here)
          | cons w ws => simp

/-- Separators in front of a string do not matter. -/
theorem segments_dropWhile (s : List α) :
    segments sep (s.dropWhile (· == sep)) = segments sep s := by
  induction s with
  | nil => rfl
  | cons c s ih =>
    by_cases same : c = sep
    · rw [dropWhile_cons_of_pos (by simpa using same), ih, same, segments_sep]
    · rw [dropWhile_cons_of_neg (by simpa using same)]

/-- Separators at the end of a string do not matter. -/
theorem segments_rdropWhile : segments sep (s.rdropWhile (· == sep)) = segments sep s := by
  induction s using List.reverseRecOn with
  | nil => rfl
  | append_singleton s c ih =>
    by_cases same : c = sep
    · rw [rdropWhile_concat_pos _ _ _ (by simpa using same), ih, same]
      have joined : segments sep (s ++ sep :: []) = segments sep s ++ segments sep [] :=
        segments_append
      simpa using joined.symm
    · rw [rdropWhile_concat_neg _ _ _ (by simpa using same)]

/-- Reading a string that starts with another character than the separator: its first segment
goes up to the next separator. -/
theorem segments_cons_of_ne {c : α} (other : c ≠ sep) (s : List α) :
    segments sep (c :: s) =
      (c :: s.takeWhile (· != sep)) :: segments sep (s.dropWhile (· != sep)) := by
  induction s generalizing c with
  | nil => simp [segments, other]
  | cons d s ih =>
    by_cases same : d = sep
    · rw [segments, if_neg other, if_pos (by simp [same]),
        takeWhile_cons_of_neg (by simp [same]), dropWhile_cons_of_neg (by simp [same])]
    · rw [segments, if_neg other, if_neg (by simpa using same), ih same,
        takeWhile_cons_of_pos (by simpa using same),
        dropWhile_cons_of_pos (by simpa using same)]
      rfl

omit [DecidableEq α] in
theorem intercalate_concat {sep : List α} {words : List (List α)} (nonempty : words ≠ [])
    {word : List α} :
    sep.intercalate (words ++ [word]) = sep.intercalate words ++ (sep ++ word) := by
  induction words with
  | nil => exact absurd rfl nonempty
  | cons first words ih =>
    cases words with
    | nil => simp [intercalate_cons_cons]
    | cons second words =>
      have rest := ih (cons_ne_nil _ _)
      simp only [cons_append] at rest ⊢
      rw [intercalate_cons_cons, intercalate_cons_cons, rest]
      simp

end FunsOS.Foundation
