import Mathlib
import LessonDeck.Text.Blank
import LessonDeck.Text.Letter
/-!
# Texts without blanks

A text that begins and ends with something visible is its own trimmed form.  Runs without blanks that
stand apart by one blank are the words of a text.  Names are such runs: no letter, numeral or
underscore is a blank.
-/

namespace LessonDeck.Text

/-! ## Trimming -/

theorem trimStart_cons {c : Char} (h : isBlank c = false) (cs : List Char) :
    trimStart (c :: cs) = c :: cs :=
  List.dropWhile_cons_of_neg (by simp [h])

theorem trimEnd_concat {c : Char} (h : isBlank c = false) (cs : List Char) :
    trimEnd (cs ++ [c]) = cs ++ [c] := by
  rw [trimEnd, List.reverse_concat, List.dropWhile_cons_of_neg (by simp [h]), List.reverse_cons,
    List.reverse_reverse]

theorem trimEnd_concat_blank {c : Char} (h : isBlank c = true) (cs : List Char) :
    trimEnd (cs ++ [c]) = trimEnd cs := by
  rw [trimEnd, trimEnd, List.reverse_concat, List.dropWhile_cons_of_pos h]

/-! ## Runs without blanks -/

/-- A run of characters of which none is a blank. -/
def Solid (cs : List Char) : Prop :=
  ∀ c ∈ cs, isBlank c = false

instance : DecidablePred Solid :=
  List.decidableBAll fun c ↦ isBlank c = false

theorem trimEnd_append {run : List Char} (h : Solid run) (hne : run ≠ []) (cs : List Char) :
    trimEnd (cs ++ run) = cs ++ run := by
  cases run using List.reverseRecOn with
  | nil => exact (hne rfl).elim
  | append_singleton front last =>
      rw [← List.append_assoc, trimEnd_concat (h last List.mem_concat_self)]

theorem trim_of_ends {first : Char} (hfirst : isBlank first = false) {run : List Char}
    (h : Solid run) (hne : run ≠ []) (cs : List Char) :
    trim (first :: (cs ++ run)) = first :: (cs ++ run) := by
  rw [trim, trimStart_cons hfirst, ← List.cons_append, trimEnd_append h hne]

theorem Solid.trimEnd {cs : List Char} (h : Solid cs) : trimEnd cs = cs := by
  cases cs with
  | nil => rfl
  | cons c cs => exact trimEnd_append h (List.cons_ne_nil c cs) []

theorem Solid.trim {cs : List Char} (h : Solid cs) : trim cs = cs := by
  cases cs with
  | nil => rfl
  | cons c cs => rw [Text.trim, trimStart_cons (h c List.mem_cons_self), h.trimEnd]

theorem wordsFrom_append {cs : List Char} (h : Solid cs) (run rest : List Char) :
    wordsFrom run (cs ++ rest) = wordsFrom (cs.reverse ++ run) rest := by
  induction cs generalizing run with
  | nil => rfl
  | cons c cs ih =>
      obtain ⟨hc, hcs⟩ := List.forall_mem_cons.mp h
      rw [List.cons_append, wordsFrom, if_neg (by simp [hc]), ih hcs, List.reverse_cons,
        List.append_assoc]
      rfl

theorem words_of_solid {cs : List Char} (h : Solid cs) (hne : cs ≠ []) : words cs = [cs] := by
  have hrun : (cs.reverse ++ []).isEmpty = false := by simpa using hne
  rw [words, ← List.append_nil cs, wordsFrom_append h, wordsFrom, hrun, if_neg Bool.false_ne_true]
  simp

theorem wordsFrom_append_blank {blank : Char} (hblank : isBlank blank = true)
    (run front back : List Char) :
    wordsFrom run (front ++ blank :: back) = wordsFrom run front ++ words back := by
  induction front generalizing run with
  | nil =>
      rw [List.nil_append, wordsFrom, wordsFrom, if_pos hblank]
      split <;> rfl
  | cons c front ih =>
      rw [List.cons_append, wordsFrom, wordsFrom]
      split
      · split
        · exact ih []
        · rw [ih, List.cons_append]
      · exact ih (c :: run)

/-- A blank stands in no word, so that the words before it and behind it are all there are. -/
theorem words_append_blank {blank : Char} (hblank : isBlank blank = true) (front back : List Char) :
    words (front ++ blank :: back) = words front ++ words back :=
  wordsFrom_append_blank hblank [] front back

theorem words_intercalate {runs : List (List Char)} (h : ∀ run ∈ runs, Solid run ∧ run ≠ [])
    {blank : Char} (hblank : isBlank blank = true) :
    words ([blank].intercalate runs) = runs := by
  induction runs with
  | nil => rfl
  | cons run runs ih =>
      obtain ⟨⟨hrun, hne⟩, hruns⟩ := List.forall_mem_cons.mp h
      cases runs with
      | nil => rw [List.intercalate_singleton, words_of_solid hrun hne]
      | cons next runs =>
          rw [List.intercalate_cons_cons, List.append_assoc, List.singleton_append,
            words_append_blank hblank, words_of_solid hrun hne, ih hruns, List.singleton_append]

/-! ## Names -/

/-- The code points of the blanks. -/
def blankCodes : List ℕ :=
  [9, 10, 11, 12, 13, 0x20, 0x85, 0xA0, 0x1680, 0x2000, 0x2001, 0x2002, 0x2003, 0x2004, 0x2005,
    0x2006, 0x2007, 0x2008, 0x2009, 0x200A, 0x2028, 0x2029, 0x202F, 0x205F, 0x3000]

theorem toNat_mem_blankCodes {c : Char} (h : isBlank c = true) : c.toNat ∈ blankCodes := by
  simp only [isBlank, Bool.or_eq_true, Bool.and_eq_true, decide_eq_true_eq, beq_iff_eq] at h
  simp only [blankCodes, List.mem_cons, List.not_mem_nil, or_false]
  omega

theorem not_blank_of_continuesName {c : Char} (h : continuesName c = true) :
    isBlank c = false := by
  by_contra hblank
  have hmem := toNat_mem_blankCodes (by simpa using hblank)
  have hletter : ∀ n ∈ blankCodes, (if n < 0x3000 then inRanges n letterRangesLow
      else if n < 0x10000 then inRanges n letterRangesBasic
      else inRanges n letterRangesHigh) = false := by decide +kernel
  have hnumeral : ∀ n ∈ blankCodes, inRanges n numeralRanges = false := by decide +kernel
  have hunderscore : '_'.toNat ∉ blankCodes := by decide
  rw [continuesName, Bool.or_eq_true, Bool.or_eq_true] at h
  obtain (h | h) | h := h
  · exact Bool.false_ne_true ((hletter _ hmem).symm.trans h)
  · exact Bool.false_ne_true ((hnumeral _ hmem).symm.trans h)
  · exact hunderscore (eq_of_beq h ▸ hmem)

theorem continuesName_of_startsName {c : Char} (h : startsName c = true) :
    continuesName c = true := by
  rw [startsName, Bool.or_eq_true] at h
  rw [continuesName, Bool.or_eq_true, Bool.or_eq_true]
  exact h.imp_left .inl

theorem continuesName_of_isName {cs : List Char} (h : isName cs = true) {c : Char} (hc : c ∈ cs) :
    continuesName c = true := by
  cases cs with
  | nil => exact nomatch hc
  | cons first cs =>
      rw [isName, Bool.and_eq_true, List.all_eq_true] at h
      obtain ⟨hfirst, hrest⟩ := h
      obtain rfl | hc := List.mem_cons.mp hc
      · exact continuesName_of_startsName hfirst
      · exact hrest c hc

theorem exists_startsName_of_isName {cs : List Char} (h : isName cs = true) :
    ∃ c ∈ cs, startsName c = true := by
  cases cs with
  | nil => exact nomatch h
  | cons first cs =>
      rw [isName, Bool.and_eq_true] at h
      exact ⟨first, List.mem_cons_self, h.1⟩

theorem solid_of_isName {cs : List Char} (h : isName cs = true) : Solid cs :=
  fun _ hc ↦ not_blank_of_continuesName (continuesName_of_isName h hc)

end LessonDeck.Text
