import Mathlib.Data.List.Chain
import StepPhrase.Unicode.CaseFolding
import StepPhrase.Unicode.LowerCase

/-!
# Looking characters up in the case tables

Folding and lower-casing are tables of runs in ascending order. What is said here of all characters
is checked run by run, so that the tables are gone through and the characters are not.

Each table is a list of runs, and a run sends every so many code points on by the same distance. A
look-up goes through the runs to one that covers the code point. As the tables are in order it can
stop at the first run that is not over yet, which is what makes it possible to check many characters
by evaluation.

* **`CaseRun.send`** — where a table sends a code point; `send_eq_of_mem` reads it off any run that
  covers the code point, since no two runs of an ascending table overlap.
* **`convert_eq_iff_of_caseless`** — a character in a range that no run touches is the only one that
  goes where it goes.
-/

namespace StepPhrase.Unicode

theorem forall_ascii {P : Char → Prop} (h : ∀ code < 0x80, P (Char.ofNat code)) {c : Char}
    (hc : c.toNat < 0x80) : P c := by
  have hcode := h c.toNat hc
  rwa [Char.ofNat_toNat] at hcode

theorem toNat_ofNat_or (code : Nat) :
    (Char.ofNat code).toNat = code ∨ (Char.ofNat code).toNat = 0 := by
  by_cases h : code.isValidChar
  · exact Or.inl (by rw [Char.ofNat, dif_pos h]; rfl)
  · exact Or.inr (by rw [Char.ofNat, dif_neg h]; rfl)

theorem toNat_ofNat {code : Nat} (h : code < 0xD800 ∨ 0xDFFF < code ∧ code < 0x110000) :
    (Char.ofNat code).toNat = code := by
  unfold Char.ofNat
  rw [dif_pos h]
  rfl

namespace CaseRun

variable {run : CaseRun} {runs : List CaseRun} {code : Nat}

/-- Whether a code point lies in the run. It is written with the operations on numbers that the
kernel has built in, since tables are checked by evaluation. -/
def covers (run : CaseRun) (code : Nat) : Bool :=
  Nat.ble run.first code && Nat.ble code run.last && Nat.beq ((code - run.first) % run.step) 0

theorem covers_iff :
    run.covers code = true ↔
      run.first ≤ code ∧ code ≤ run.last ∧ (code - run.first) % run.step = 0 := by
  simp only [covers, Bool.and_eq_true, Nat.ble_eq, Nat.beq_eq, and_assoc]

theorem image?_eq_ite (run : CaseRun) (code : Nat) :
    run.image? code = if run.covers code then some (run.image + (code - run.first)) else none := by
  unfold image?
  exact if_congr covers_iff.symm rfl rfl

/-- Where a table sends a code point: the first run that covers it counts, and a code point in none
of the runs stays. -/
def send (runs : List CaseRun) (code : Nat) : Nat :=
  match runs.find? (·.covers code) with
  | some run => run.image + (code - run.first)
  | none => code

theorem send_eq_self (h : ∀ run ∈ runs, run.covers code = false) : send runs code = code := by
  have hnone : runs.find? (·.covers code) = none := by
    rw [List.find?_eq_none]
    intro run hrun
    simp [h run hrun]
  rw [send, hnone]

/-- A code point is sent on by a run that covers it, or else it stays. -/
theorem send_cases (runs : List CaseRun) (code : Nat) :
    (∃ run ∈ runs, run.covers code = true ∧ send runs code = run.image + (code - run.first))
      ∨ ((∀ run ∈ runs, run.covers code = false) ∧ send runs code = code) := by
  -- the first run that covers the code point, if there is one
  cases hfind : runs.find? (·.covers code) with
  | some run =>
    have hcovers : run.covers code = true := by
      have hsome := List.find?_some hfind
      exact hsome
    refine Or.inl ⟨run, List.mem_of_find?_eq_some hfind, hcovers, ?_⟩
    rw [send, hfind]
  | none =>
    have hnone : ∀ run ∈ runs, run.covers code = false := by
      intro run hrun
      simpa using List.find?_eq_none.mp hfind run hrun
    exact Or.inr ⟨hnone, send_eq_self hnone⟩

theorem apply_eq_ofNat_send (runs : List CaseRun) (c : Char) :
    apply runs c = Char.ofNat (send runs c.toNat) := by
  -- looking for an image is looking for a run that covers the code point
  have hlookup : runs.findSome? (·.image? c.toNat) =
      (runs.find? (·.covers c.toNat)).map fun run => run.image + (c.toNat - run.first) := by
    induction runs with
    | nil => rfl
    | cons run runs ih =>
      rw [List.findSome?_cons, List.find?_cons, image?_eq_ite, ih]
      cases run.covers c.toNat <;> rfl
  rw [apply, send, hlookup]
  cases runs.find? (·.covers c.toNat) with
  | some run => rfl
  | none => exact (Char.ofNat_toNat c).symm

/-! ## Ascending tables

That a table is in order is checked between neighbours and holds between any two runs, since one run
being over before another begins is transitive. -/

/-- One run is over before the other begins. -/
def Before (run next : CaseRun) : Prop := run.first ≤ run.last ∧ run.last < next.first

instance : DecidableRel Before := fun run next =>
  inferInstanceAs (Decidable (run.first ≤ run.last ∧ run.last < next.first))

instance : Trans Before Before Before where
  trans h h' := ⟨h.1, Nat.lt_trans h.2 (Nat.lt_of_le_of_lt h'.1 h'.2)⟩

/-- The runs of a table follow each other, so at most one of them covers a code point. -/
def Ascending (runs : List CaseRun) : Prop := runs.Pairwise Before

/-- No two runs of an ascending table cover the same code point, so whichever run covers it says
where it is sent. -/
theorem Ascending.eq_of_covers (h : Ascending runs) {other : CaseRun} (hrun : run ∈ runs)
    (hother : other ∈ runs) (hcovers : run.covers code = true)
    (hcovers' : other.covers code = true) : run = other := by
  obtain ⟨hfirst, hlast, -⟩ := covers_iff.mp hcovers
  obtain ⟨hfirst', hlast', -⟩ := covers_iff.mp hcovers'
  induction h with
  | nil => cases hrun
  | @cons head tail hhead _ ih =>
    rcases List.mem_cons.mp hrun with rfl | hrun'
    · rcases List.mem_cons.mp hother with rfl | hother'
      · rfl
      · have hbefore := (hhead other hother').2
        omega
    · rcases List.mem_cons.mp hother with rfl | hother'
      · have hbefore := (hhead run hrun').2
        omega
      · exact ih hrun' hother'

theorem send_eq_of_mem (h : Ascending runs) (hrun : run ∈ runs) (hcovers : run.covers code = true) :
    send runs code = run.image + (code - run.first) := by
  -- the look-up takes the first run that covers the code point, and there is no other
  rcases send_cases runs code with ⟨other, hother, hcovers', hsend⟩ | ⟨hnone, -⟩
  · rw [hsend, h.eq_of_covers hother hrun hcovers' hcovers]
  · rw [hnone run hrun] at hcovers
    cases hcovers

/-- Where an ascending table sends a code point, found with one comparison for each run that is
passed. -/
def seek (runs : List CaseRun) (code : Nat) : Nat :=
  match runs.find? (Nat.ble code ·.last) with
  | some run => if run.covers code then run.image + (code - run.first) else code
  | none => code

theorem send_eq_seek (h : Ascending runs) (code : Nat) : send runs code = seek runs code := by
  unfold send seek
  induction h with
  | nil => rfl
  | @cons run runs hrun _ ih =>
    rw [List.find?_cons, List.find?_cons]
    cases hlast : Nat.ble code run.last with
    | false =>
      have hnot : run.covers code = false := by simp [covers, hlast]
      rw [hnot]
      exact ih
    | true =>
      cases hcovers : run.covers code with
      | true => simp [hcovers]
      | false =>
        -- the runs behind begin where this one is over
        have hnone : ∀ other ∈ runs, other.covers code = false := by
          intro other hother
          refine Bool.eq_false_iff.mpr fun hcovers' => ?_
          have hfirst := (covers_iff.mp hcovers').1
          have hbefore := (hrun other hother).2
          rw [Nat.ble_eq] at hlast
          omega
        have hstays := send_eq_self hnone
        unfold send at hstays
        simpa [hcovers] using hstays

/-! ## Characters that have no case

A range is free of case if no run has a character in it and none leads there. Then no character
in it is sent anywhere, and none from elsewhere is sent into it. -/

/-- Whether the run has no code point in the range. -/
def startsOutside (run : CaseRun) (range : Nat × Nat) : Bool :=
  Nat.blt run.last range.1 || Nat.blt range.2 run.first

/-- Whether the run leads to no code point in the range. -/
def endsOutside (run : CaseRun) (range : Nat × Nat) : Bool :=
  Nat.blt (run.image + (run.last - run.first)) range.1 || Nat.blt range.2 run.image

theorem startsOutside_iff {range : Nat × Nat} :
    run.startsOutside range = true ↔ run.last < range.1 ∨ range.2 < run.first := by
  simp only [startsOutside, Bool.or_eq_true, Nat.blt_eq]

theorem endsOutside_iff {range : Nat × Nat} :
    run.endsOutside range = true ↔
      run.image + (run.last - run.first) < range.1 ∨ range.2 < run.image := by
  simp only [endsOutside, Bool.or_eq_true, Nat.blt_eq]

/-- A table for the characters beyond ASCII; ASCII letters go to their small form. Folding and
lower-casing are both of this form, but for one character. -/
def convert (runs : List CaseRun) (c : Char) : Char :=
  if c.toNat < 0x80 then c.toLower else Char.ofNat (send runs c.toNat)

theorem convert_of_lt {c : Char} (hc : c.toNat < 0x80) : convert runs c = c.toLower := if_pos hc

/-- Whether all images of a run are characters. -/
def sendsToChars (run : CaseRun) : Bool :=
  Nat.blt (run.image + (run.last - run.first)) 0xD800
    || (Nat.blt 0xDFFF run.image && Nat.blt (run.image + (run.last - run.first)) 0x110000)

theorem toNat_convert (h : runs.all sendsToChars = true) {c : Char} (hc : ¬c.toNat < 0x80) :
    (convert runs c).toNat = send runs c.toNat := by
  rw [convert, if_neg hc]
  rcases send_cases runs c.toNat with ⟨run, hrun, hcovers, hsend⟩ | ⟨-, hsend⟩
  · have hchars := List.all_eq_true.mp h run hrun
    simp only [sendsToChars, Bool.or_eq_true, Bool.and_eq_true, Nat.blt_eq] at hchars
    have hlast := (covers_iff.mp hcovers).2.1
    rw [hsend]
    exact toNat_ofNat (by omega)
  · rw [hsend, Char.ofNat_toNat]

/-- Whether a range has no letter of ASCII in it and no run touches it. The characters in such a
range have no variants, and are variants of no others. -/
def isCaseless (runs : List CaseRun) (range : Nat × Nat) : Bool :=
  Nat.blt 0 range.1
    && (Nat.blt range.2 0x41 ||
      (Nat.blt 0x5A range.1 && Nat.blt range.2 0x61) || Nat.blt 0x7A range.1)
    && runs.all fun run => run.startsOutside range && run.endsOutside range

theorem toLower_toNat_cases {c : Char} (hc : c.toNat < 0x80) :
    c.toLower = c ∨ (0x41 ≤ c.toNat ∧ c.toNat ≤ 0x5A) ∧ 0x61 ≤ c.toLower.toNat
      ∧ c.toLower.toNat ≤ 0x7A :=
  forall_ascii (P := fun c => c.toLower = c ∨ (0x41 ≤ c.toNat ∧ c.toNat ≤ 0x5A)
    ∧ 0x61 ≤ c.toLower.toNat ∧ c.toLower.toNat ≤ 0x7A) (by decide) hc

/-- A character that ends up in a caseless range was there before, and a character of the range
stays where it is. -/
theorem convert_eq_self_of_caseless {range : Nat × Nat}
    (h : isCaseless runs range = true) {c : Char}
    (hc : (range.1 ≤ c.toNat ∧ c.toNat ≤ range.2)
      ∨ (range.1 ≤ (convert runs c).toNat ∧ (convert runs c).toNat ≤ range.2)) :
    convert runs c = c := by
  simp only [isCaseless, Bool.and_eq_true, Bool.or_eq_true, Nat.blt_eq, List.all_eq_true] at h
  obtain ⟨⟨hpositive, hletters⟩, hruns⟩ := h
  unfold convert at hc ⊢
  split at hc
  · next hascii =>
    rw [if_pos hascii]
    rcases toLower_toNat_cases hascii with heq | ⟨hcapital, hsmall⟩
    · exact heq
    · omega
  · next hascii =>
    rw [if_neg hascii]
    rcases send_cases runs c.toNat with ⟨run, hrun, hcovers, hsend⟩ | ⟨-, hsend⟩
    · -- a run that covers the character would touch the range, at the character or at its image
      obtain ⟨hfirst, hlast, -⟩ := covers_iff.mp hcovers
      obtain ⟨hstart, hend⟩ := hruns run hrun
      rw [startsOutside_iff] at hstart
      rw [endsOutside_iff] at hend
      rw [hsend] at hc
      rcases toNat_ofNat_or (run.image + (c.toNat - run.first)) with hcode | hcode
      · rw [hcode] at hc
        omega
      · rw [hcode] at hc
        omega
    · rw [hsend, Char.ofNat_toNat]

/-- **A caseless character is the only one that goes where it goes**, and it goes nowhere: it has no
variant but itself. -/
theorem convert_eq_iff_of_caseless {range : Nat × Nat}
    (h : isCaseless runs range = true) {a b : Char}
    (ha : range.1 ≤ a.toNat ∧ a.toNat ≤ range.2) : convert runs a = convert runs b ↔ a = b := by
  refine ⟨fun heq => ?_, congrArg _⟩
  have hself := convert_eq_self_of_caseless h (Or.inl ha)
  rw [hself] at heq
  rw [heq, convert_eq_self_of_caseless h (Or.inr (heq ▸ ha))]

end CaseRun

/-! ## The two tables

The facts about the tables themselves: they are in order, and the images are characters. The one
character that has two in lower case is not in the table. -/

open CaseRun

theorem ascending_foldRuns : Ascending foldRuns :=
  List.isChain_iff_pairwise.mp (by decide +kernel)

theorem ascending_lowerRuns : Ascending lowerRuns :=
  List.isChain_iff_pairwise.mp (by decide +kernel)

theorem sendsToChars_foldRuns : foldRuns.all sendsToChars = true := by decide

theorem foldCase_eq_convert (c : Char) : foldCase c = convert foldRuns c := by
  rw [foldCase, convert, apply_eq_ofNat_send]

theorem lowerCase_eq_convert {c : Char} (hc : c.toNat ≠ 0x130) :
    lowerCase c = [convert lowerRuns c] := by
  rw [lowerCase, convert, if_neg hc, apply_eq_ofNat_send]
  split <;> rfl

end StepPhrase.Unicode
