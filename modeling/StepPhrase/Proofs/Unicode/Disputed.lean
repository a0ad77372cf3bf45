import StepPhrase.Proofs.Unicode.CaseTable

/-!
# Disputed characters

Folding and lower-casing make the same characters variants of each other, but for a few: variants of
a letter that fold to it and are small already, and letters younger than the folding table.

There are too many characters to try them all in a proof. What is tried are the runs: each run of
one table is part of a run of the other that sends its characters to the same places, or it is on a
list of exceptions. The checks are gathered in one structure and evaluated once.

* **`isDisputed`** — these characters, 53 in all.
* **`lowerCase_eq_of_not_isDisputed`** — for every other character the lower-case form can be told
  from the folded one. The tables are compared run by run; only the Cherokee letters, which fold to
  their capitals, need a correction (`smallCode`).
* **`foldCase_eq_iff_lowerCase_eq`** — so two undisputed characters are variants under both or
  neither.
* **`exists_rival`** — and each disputed character is a variant of an undisputed one under one of
  the two only.
-/

namespace StepPhrase.Unicode

open CaseRun

/-! ## The disputed characters

Each is given with a rival, so that the list also proves that none of its members is there without
need. A run of young letters is added as a whole. -/

/-- The code points of the single characters that folding and lower-casing treat differently,
ascending, each with that of a rival: one that it is a variant of under one of the two only. -/
def disputedPairs : List (Nat × Nat) :=
  [(0xB5, 0x3BC), (0x17F, 0x73), (0x345, 0x3B9), (0x3C2, 0x3C3), (0x3D0, 0x3B2), (0x3D1, 0x3B8),
    (0x3D5, 0x3C6), (0x3D6, 0x3C0), (0x3F0, 0x3BA), (0x3F1, 0x3C1), (0x3F5, 0x3B5), (0x1C80, 0x432),
    (0x1C81, 0x434), (0x1C82, 0x43E), (0x1C83, 0x441), (0x1C84, 0x442), (0x1C85, 0x442),
    (0x1C86, 0x44A), (0x1C87, 0x463), (0x1C88, 0xA64B), (0x1E9B, 0x1E61), (0x1FBE, 0x3B9),
    (0x1FD3, 0x390), (0x1FE3, 0x3B0), (0xA7CE, 0xA7CF), (0xA7D2, 0xA7D3), (0xA7D4, 0xA7D5),
    (0xFB05, 0xFB06)]

def disputedCodes : List Nat := disputedPairs.map Prod.fst

/-- A whole run that folding does not have. -/
def youngLowers : CaseRun := ⟨0x16EA0, 0x16EB8, 1, 0x16EBB⟩

/-- Whether a code point is that of a disputed character. -/
def isDisputedCode (code : Nat) : Bool :=
  disputedCodes.any (Nat.beq code) || youngLowers.covers code

/-- Whether folding and lower-casing group a character differently, so that it has variants for the
one that it does not have for the other. -/
def isDisputed (c : Char) : Bool := isDisputedCode c.toNat

/-! ### Cherokee

The small letters fold to the capitals, where all other letters fold to the small ones. -/

/-- The code points of the small Cherokee letters. -/
def IsSmallCherokee (code : Nat) : Prop :=
  (0x13F8 ≤ code ∧ code ≤ 0x13FD) ∨ (0xAB70 ≤ code ∧ code ≤ 0xABBF)

/-- From the Cherokee capitals to the small letters; all other code points stay. Folding leads to
the capitals and lower-casing to the small letters, so this carries the one over to the other. -/
def smallCode (code : Nat) : Nat :=
  if 0x13A0 ≤ code ∧ code ≤ 0x13EF then code + 0x97D0
  else if 0x13F0 ≤ code ∧ code ≤ 0x13F5 then code + 8
  else code

theorem smallCode_eq_add {code : Nat} (h : 0x13A0 ≤ code ∧ code ≤ 0x13EF) :
    smallCode code = code + 0x97D0 := by
  rw [smallCode, if_pos h]

theorem smallCode_eq_add_eight {code : Nat} (h : 0x13F0 ≤ code ∧ code ≤ 0x13F5) :
    smallCode code = code + 8 := by
  rw [smallCode, if_neg (by omega), if_pos h]

theorem smallCode_eq_self {code : Nat}
    (h : ¬(0x13A0 ≤ code ∧ code ≤ 0x13EF) ∧ ¬(0x13F0 ≤ code ∧ code ≤ 0x13F5)) :
    smallCode code = code := by
  rw [smallCode, if_neg h.1, if_neg h.2]

theorem smallCode_injective {code code' : Nat} (h : ¬IsSmallCherokee code)
    (h' : ¬IsSmallCherokee code') (heq : smallCode code = smallCode code') : code = code' := by
  unfold IsSmallCherokee at h h'
  unfold smallCode at heq
  split_ifs at heq <;> omega

theorem toNat_ofNat_smallCode (c : Char) :
    (Char.ofNat (smallCode c.toNat)).toNat = smallCode c.toNat := by
  by_cases hfirst : 0x13A0 ≤ c.toNat ∧ c.toNat ≤ 0x13EF
  · rw [smallCode_eq_add hfirst]
    exact toNat_ofNat (by omega)
  · by_cases hsecond : 0x13F0 ≤ c.toNat ∧ c.toNat ≤ 0x13F5
    · rw [smallCode_eq_add_eight hsecond]
      exact toNat_ofNat (by omega)
    · rw [smallCode_eq_self ⟨hfirst, hsecond⟩, Char.ofNat_toNat]

/-- The runs that take the small Cherokee letters to the capitals, and those that take them back. -/
def cherokeeFolds : List CaseRun := [⟨0x13F8, 0x13FD, 1, 0x13F0⟩, ⟨0xAB70, 0xABBF, 1, 0x13A0⟩]

def cherokeeLowers : List CaseRun := [⟨0x13A0, 0x13EF, 1, 0xAB70⟩, ⟨0x13F0, 0x13F5, 1, 0x13F8⟩]

theorem smallCode_of_mem_cherokeeFolds {run : CaseRun} (hrun : run ∈ cherokeeFolds) {code : Nat}
    (hcovers : run.covers code = true) :
    IsSmallCherokee code ∧ smallCode (run.image + (code - run.first)) = code := by
  obtain ⟨hfirst, hlast, -⟩ := covers_iff.mp hcovers
  rcases List.mem_cons.mp hrun with rfl | hrun
  · dsimp only at hfirst hlast ⊢
    rw [smallCode_eq_add_eight (by omega)]
    exact ⟨Or.inl ⟨hfirst, hlast⟩, by omega⟩
  · obtain rfl := List.mem_singleton.mp hrun
    dsimp only at hfirst hlast ⊢
    rw [smallCode_eq_add (by omega)]
    exact ⟨Or.inr ⟨hfirst, hlast⟩, by omega⟩

theorem smallCode_of_mem_cherokeeLowers {run : CaseRun} (hrun : run ∈ cherokeeLowers) {code : Nat}
    (hcovers : run.covers code = true) : smallCode code = run.image + (code - run.first) := by
  obtain ⟨hfirst, hlast, -⟩ := covers_iff.mp hcovers
  rcases List.mem_cons.mp hrun with rfl | hrun
  · dsimp only at hfirst hlast ⊢
    rw [smallCode_eq_add ⟨hfirst, hlast⟩]
    omega
  · obtain rfl := List.mem_singleton.mp hrun
    dsimp only at hfirst hlast ⊢
    rw [smallCode_eq_add_eight ⟨hfirst, hlast⟩]
    omega

/-! ## The tables compared

To be part of another run means to be covered by it and to be sent to the same places. Both tables
are in order, so for each run of one the run of the other is found by moving on. -/

/-- Whether a run has nothing but disputed code points: one or two of them, or all that are young.
-/
def isDisputedRun (run : CaseRun) : Bool :=
  (disputedCodes.contains run.first && disputedCodes.contains run.last
      && Nat.ble run.last (run.first + 1))
    || run == youngLowers

theorem isDisputedCode_of_run {run : CaseRun} (h : isDisputedRun run = true) {code : Nat}
    (hcovers : run.covers code = true) : isDisputedCode code = true := by
  simp only [isDisputedRun, Bool.or_eq_true, Bool.and_eq_true, List.contains_iff_mem, Nat.ble_eq,
    beq_iff_eq] at h
  unfold isDisputedCode
  rw [Bool.or_eq_true, List.any_eq_true]
  rcases h with ⟨⟨hfirst, hlast⟩, hnext⟩ | rfl
  · obtain ⟨hge, hle, -⟩ := covers_iff.mp hcovers
    rcases Nat.eq_or_lt_of_le hge with heq | hlt
    · exact Or.inl ⟨run.first, hfirst, Nat.beq_eq.mpr heq.symm⟩
    · exact Or.inl ⟨run.last, hlast, Nat.beq_eq.mpr (by omega)⟩
  · exact Or.inr hcovers

/-- Whether a run is part of another: it goes to the same places. Its code points are among those of
the other run, at the same distance from their images. -/
def isPartOf (run whole : CaseRun) : Bool :=
  Nat.ble whole.first run.first && Nat.ble run.last whole.last
    && Nat.beq (run.image + whole.first) (whole.image + run.first)
    && Nat.beq ((run.first - whole.first) % whole.step) 0
    && (Nat.beq run.first run.last || Nat.beq (run.step % whole.step) 0)

theorem covers_of_isPartOf {run whole : CaseRun} (h : isPartOf run whole = true) {code : Nat}
    (hcovers : run.covers code = true) :
    whole.covers code = true ∧ whole.image + (code - whole.first) =
      run.image + (code - run.first) := by
  obtain ⟨hfirst, hlast, hstep⟩ := covers_iff.mp hcovers
  simp only [isPartOf, Bool.and_eq_true, Bool.or_eq_true, Nat.ble_eq, Nat.beq_eq] at h
  obtain ⟨⟨⟨⟨hle, hge⟩, himage⟩, hoffset⟩, hsteps⟩ := h
  refine ⟨covers_iff.mpr ⟨by omega, by omega, ?_⟩, by omega⟩
  -- the distance from the beginning of the whole is that of the part and the distance in the part
  have hdistance : code - whole.first = (run.first - whole.first) + (code - run.first) := by omega
  have hwithin : whole.step ∣ code - run.first := by
    rcases hsteps with hsingle | hsteps
    · have hzero : code - run.first = 0 := by omega
      rw [hzero]
      exact Nat.dvd_zero _
    · exact Nat.dvd_trans (Nat.dvd_of_mod_eq_zero hsteps) (Nat.dvd_of_mod_eq_zero hstep)
  rw [hdistance]
  exact Nat.mod_eq_zero_of_dvd (Nat.dvd_add (Nat.dvd_of_mod_eq_zero hoffset) hwithin)

/-- Whether each run that is not exempt is part of a run of an ascending table. The runs that are
over before it begins are left behind for good. -/
def allParts (exempt : CaseRun → Bool) : List CaseRun → List CaseRun → Bool
  | [], _ => true
  | run :: runs, wholes =>
    ((wholes.dropWhile fun whole => Nat.blt whole.last run.first).head?.any
      (isPartOf run) || exempt run)
      && allParts exempt runs (wholes.dropWhile fun whole => Nat.blt whole.last run.first)

theorem of_allParts {exempt : CaseRun → Bool} {runs wholes : List CaseRun}
    (h : allParts exempt runs wholes = true) :
    ∀ run ∈ runs, exempt run = true ∨ ∃ whole ∈ wholes, isPartOf run whole = true := by
  induction runs generalizing wholes with
  | nil => simp
  | cons run runs ih =>
    -- what is left behind is over before the run begins, and so before all later ones
    have hsublist : (wholes.dropWhile fun whole => Nat.blt whole.last run.first).Sublist wholes :=
      List.dropWhile_sublist _
    rw [allParts, Bool.and_eq_true, Bool.or_eq_true, Option.any_eq_true] at h
    refine List.forall_mem_cons.mpr ⟨?_, fun other hother => ?_⟩
    · rcases h.1 with ⟨whole, hwhole, hpart⟩ | hexempt
      · exact Or.inr ⟨whole, hsublist.subset (List.mem_of_mem_head? hwhole), hpart⟩
      · exact Or.inl hexempt
    · rcases ih h.2 other hother with hexempt | ⟨whole, hwhole, hpart⟩
      · exact Or.inl hexempt
      · exact Or.inr ⟨whole, hsublist.subset hwhole, hpart⟩

/-- The letters of a run that folding has in parts only. -/
def latinLowers : CaseRun := ⟨0xA7CC, 0xA7DA, 2, 0xA7CD⟩

/-! ### Checks

These are all of the facts about the tables that the proofs use. Everything else is reasoned from
them. -/

/-- The character that the one of a code point goes to in an ascending table, where runs behind the
code point need not be looked at. -/
def soughtIn (runs : List CaseRun) (code : Nat) : Char :=
  if code < 0x80 then (Char.ofNat code).toLower else Char.ofNat (seek runs code)

theorem convert_eq_soughtIn (h : Ascending runs) (c : Char) :
    convert runs c = soughtIn runs c.toNat := by
  rw [convert, send_eq_seek h, soughtIn, Char.ofNat_toNat]

/-- Whether the second of two code points is that of an undisputed character, which is a variant of
the other one under one of the two only. -/
def isRival (pair : Nat × Nat) : Bool :=
  (Char.ofNat pair.2).toNat == pair.2 && !isDisputedCode pair.2 && pair.2 != 0x130
    && (soughtIn foldRuns pair.1 == soughtIn foldRuns pair.2)
      != (soughtIn lowerRuns pair.1 == soughtIn lowerRuns pair.2)

/-- What the tables are checked for, run by run. -/
structure Checks : Prop where
  foldParts : allParts (fun run => isDisputedRun run || cherokeeFolds.contains run)
    foldRuns lowerRuns = true
  lowerParts : allParts (fun run => isDisputedRun run || cherokeeLowers.contains run
    || run == latinLowers) lowerRuns foldRuns = true
  latinParts : ((List.range 8).all fun k => isDisputedCode (0xA7CC + 2 * k)
    || foldRuns.any (·.covers (0xA7CC + 2 * k))) = true
  mem_foldRuns : cherokeeFolds.all foldRuns.contains = true
  mem_lowerRuns : cherokeeLowers.all lowerRuns.contains = true
  foldImages : (foldRuns.all fun run =>
    cherokeeFolds.contains run || run.endsOutside (0x13A0, 0x13F5)) = true
  smallImages : (foldRuns.all fun run =>
    run.endsOutside (0x13F8, 0x13FD) && run.endsOutside (0xAB70, 0xABBF)) = true
  smallLowers : (lowerRuns.all fun run =>
    run.startsOutside (0x13F8, 0x13FD) && run.startsOutside (0xAB70, 0xABBF)) = true
  caseless_dotted : isCaseless foldRuns (0x130, 0x130) = true
  rivals : disputedPairs.all isRival = true
  mem_youngLowers : lowerRuns.contains youngLowers = true
  youngFolds : (foldRuns.all fun run => run.startsOutside (0x16EA0, 0x16ED3)) = true
  youngImages : (lowerRuns.all fun run => run.startsOutside (0x16EBB, 0x16ED3)) = true

theorem checks : Checks := by
  constructor <;> decide +kernel

/-! ### Runs

The checks in terms of code points: where one table sends a code point, the other sends it too, but
for the exceptions. -/

theorem foldRuns_agree : ∀ run ∈ foldRuns, isDisputedRun run = true ∨ run ∈ cherokeeFolds
    ∨ ((∃ whole ∈ lowerRuns, isPartOf run whole = true)
      ∧ (run.image + (run.last - run.first) < 0x13A0 ∨ 0x13F5 < run.image)) := by
  intro run hrun
  have hpart := of_allParts (Checks.foldParts checks) run hrun
  have himage := List.all_eq_true.mp (Checks.foldImages checks) run hrun
  simp only [Bool.or_eq_true, List.contains_iff_mem, endsOutside_iff] at hpart himage
  rcases hpart with (hdisputed | hcherokee) | hwhole
  · exact Or.inl hdisputed
  · exact Or.inr (Or.inl hcherokee)
  · rcases himage with hcherokee | hends
    · exact Or.inr (Or.inl hcherokee)
    · exact Or.inr (Or.inr ⟨hwhole, hends⟩)

theorem lowerRuns_agree : ∀ run ∈ lowerRuns, isDisputedRun run = true ∨ run ∈ cherokeeLowers
    ∨ run = latinLowers ∨ ∃ whole ∈ foldRuns, isPartOf run whole = true := by
  intro run hrun
  have hpart := of_allParts (Checks.lowerParts checks) run hrun
  simpa only [Bool.or_eq_true, List.contains_iff_mem, beq_iff_eq, or_assoc] using hpart

theorem send_lowerRuns_of_small {code : Nat} (h : IsSmallCherokee code) :
    send lowerRuns code = code := by
  refine send_eq_self fun run hrun => Bool.eq_false_iff.mpr fun hcovers => ?_
  have hstarts := List.all_eq_true.mp (Checks.smallLowers checks) run hrun
  rw [Bool.and_eq_true, startsOutside_iff, startsOutside_iff] at hstarts
  obtain ⟨hfirst, hlast, -⟩ := covers_iff.mp hcovers
  unfold IsSmallCherokee at h
  omega

/-- What stays as it is in lower-casing is no Cherokee capital, for these are all sent on. So the
correction leaves it alone. -/
theorem smallCode_of_stays {code : Nat} (h : ∀ run ∈ lowerRuns, run.covers code = false) :
    smallCode code = code := by
  have hcapital : ∀ run ∈ cherokeeLowers, run.covers code ≠ true := by
    intro run hrun
    have hmem := List.contains_iff_mem.mp
      (List.all_eq_true.mp (Checks.mem_lowerRuns checks) run hrun)
    simp [h run hmem]
  have hfirst := hcapital ⟨0x13A0, 0x13EF, 1, 0xAB70⟩ (by decide)
  have hsecond := hcapital ⟨0x13F0, 0x13F5, 1, 0x13F8⟩ (by decide)
  rw [ne_eq, covers_iff] at hfirst hsecond
  exact smallCode_eq_self ⟨fun hcode => hfirst ⟨hcode.1, hcode.2, Nat.mod_one _⟩,
    fun hcode => hsecond ⟨hcode.1, hcode.2, Nat.mod_one _⟩⟩

/-- What stays as it is in folding is no small Cherokee letter, for these fold to their capitals. -/
theorem not_isSmallCherokee_of_stays {code : Nat} (h : ∀ run ∈ foldRuns, run.covers code = false) :
    ¬IsSmallCherokee code := by
  have hsmall : ∀ run ∈ cherokeeFolds, run.covers code ≠ true := by
    intro run hrun
    have hmem := List.contains_iff_mem.mp
      (List.all_eq_true.mp (Checks.mem_foldRuns checks) run hrun)
    simp [h run hmem]
  have hfirst := hsmall ⟨0x13F8, 0x13FD, 1, 0x13F0⟩ (by decide)
  have hsecond := hsmall ⟨0xAB70, 0xABBF, 1, 0x13A0⟩ (by decide)
  rw [ne_eq, covers_iff] at hfirst hsecond
  intro hcode
  rcases hcode with hcode | hcode
  · exact hfirst ⟨hcode.1, hcode.2, Nat.mod_one _⟩
  · exact hsecond ⟨hcode.1, hcode.2, Nat.mod_one _⟩

/-- Of the letters in the run that lower-casing has whole, folding knows some and the others are
disputed. -/
theorem exists_foldRun_of_latin {code : Nat} (h : isDisputedCode code = false)
    (hcovers : latinLowers.covers code = true) :
    ∃ run ∈ foldRuns, run.covers code = true := by
  obtain ⟨hfirst, hlast, hstep⟩ := covers_iff.mp hcovers
  dsimp only [latinLowers] at hfirst hlast hstep
  have hcode : 0xA7CC + 2 * ((code - 0xA7CC) / 2) = code := by omega
  have hcheck := List.all_eq_true.mp (Checks.latinParts checks) ((code - 0xA7CC) / 2)
    (List.mem_range.mpr (by omega))
  rw [hcode, h, Bool.false_or] at hcheck
  exact List.any_eq_true.mp hcheck

/-- **Where lower-casing sends a code point can be told from where folding sends it**, for all
undisputed ones: it is the same place, but for Cherokee letters. -/
theorem send_lowerRuns_eq_smallCode {code : Nat} (h : isDisputedCode code = false) :
    send lowerRuns code = smallCode (send foldRuns code) := by
  have hnot : ∀ run, isDisputedRun run = true → run.covers code = false := by
    intro run hrun
    refine Bool.eq_false_iff.mpr fun hcovers => ?_
    rw [isDisputedCode_of_run hrun hcovers] at h
    cases h
  -- a run of one table is disputed, Cherokee, or part of a run of the other one
  rcases send_cases foldRuns code with ⟨run, hrun, hcovers, hfold⟩ | ⟨hstays, hfold⟩
  · rw [hfold]
    rcases foldRuns_agree run hrun with hdisputed | hcherokee | ⟨⟨whole, hwhole, hpart⟩, himage⟩
    · rw [hnot run hdisputed] at hcovers
      cases hcovers
    · obtain ⟨hsmall, hcode⟩ := smallCode_of_mem_cherokeeFolds hcherokee hcovers
      rw [send_lowerRuns_of_small hsmall, hcode]
    · obtain ⟨hcovers', hsame⟩ := covers_of_isPartOf hpart hcovers
      have hlast := (covers_iff.mp hcovers).2.1
      rw [send_eq_of_mem ascending_lowerRuns hwhole hcovers', hsame, smallCode_eq_self (by omega)]
  · rw [hfold]
    rcases send_cases lowerRuns code with ⟨run, hrun, hcovers, hlower⟩ | ⟨hstays', hlower⟩
    · have hunknown : ∀ run ∈ foldRuns, run.covers code ≠ true := fun run hrun => by
        simp [hstays run hrun]
      rw [hlower]
      rcases lowerRuns_agree run hrun with hdisputed | hcherokee | rfl | ⟨whole, hwhole, hpart⟩
      · rw [hnot run hdisputed] at hcovers
        cases hcovers
      · exact (smallCode_of_mem_cherokeeLowers hcherokee hcovers).symm
      · -- a run that folding has in parts: what it has is undisputed and covered by a part
        obtain ⟨known, hknown, hcovers'⟩ := exists_foldRun_of_latin h hcovers
        exact absurd hcovers' (hunknown known hknown)
      · exact absurd (covers_of_isPartOf hpart hcovers).1 (hunknown whole hwhole)
    · rw [hlower, smallCode_of_stays hstays']

/-! ## Characters

From code points to characters, with ASCII apart, which neither table covers, and the one character
that has two in lower case apart as well. -/

/-- Folding leads to no small Cherokee letter. -/
theorem not_isSmallCherokee_foldCase (c : Char) : ¬IsSmallCherokee (foldCase c).toNat := by
  rw [foldCase_eq_convert]
  by_cases hascii : c.toNat < 0x80
  · rw [convert_of_lt hascii]
    unfold IsSmallCherokee
    rcases toLower_toNat_cases hascii with heq | ⟨-, hsmall⟩
    · rw [heq]
      omega
    · omega
  · rw [toNat_convert sendsToChars_foldRuns hascii]
    rcases send_cases foldRuns c.toNat with ⟨run, hrun, hcovers, hsend⟩ | ⟨hstays, hsend⟩
    · have hends := List.all_eq_true.mp (Checks.smallImages checks) run hrun
      rw [Bool.and_eq_true, endsOutside_iff, endsOutside_iff] at hends
      have hlast := (covers_iff.mp hcovers).2.1
      unfold IsSmallCherokee
      omega
    · rw [hsend]
      exact not_isSmallCherokee_of_stays hstays

/-- **The lower-case form of an undisputed character can be told from the folded one.** So
characters that fold to the same have the same lower-case form. -/
theorem lowerCase_eq_of_not_isDisputed {c : Char} (h : isDisputed c = false)
    (hc : c.toNat ≠ 0x130) :
    lowerCase c = [Char.ofNat (smallCode (foldCase c).toNat)] := by
  rw [lowerCase_eq_convert hc, foldCase_eq_convert]
  by_cases hascii : c.toNat < 0x80
  · rw [convert_of_lt hascii, convert_of_lt hascii]
    have hlow : c.toLower.toNat < 0x80 := by
      rcases toLower_toNat_cases hascii with heq | ⟨-, hsmall⟩
      · rwa [heq]
      · omega
    rw [smallCode_eq_self (by omega), Char.ofNat_toNat]
  · rw [toNat_convert sendsToChars_foldRuns hascii, convert, if_neg hascii,
      send_lowerRuns_eq_smallCode h]

theorem eq_of_foldCase_or_lowerCase {a b : Char} (ha : a.toNat = 0x130)
    (h : foldCase a = foldCase b ∨ lowerCase a = lowerCase b) : a = b := by
  rcases h with hfold | hlower
  · rw [foldCase_eq_convert, foldCase_eq_convert] at hfold
    exact (convert_eq_iff_of_caseless (Checks.caseless_dotted checks) (by omega)).mp hfold
  · by_cases hb : b.toNat = 0x130
    · exact Char.toNat_inj.mp (ha.trans hb.symm)
    · have hlength := congrArg List.length hlower
      rw [lowerCase_eq_convert hb, lowerCase, if_neg (by omega), if_pos ha] at hlength
      cases hlength

/-- **Two undisputed characters are variants of each other under both, or under neither.** The
correction for Cherokee letters can be undone, so nothing is lost either way. -/
theorem foldCase_eq_iff_lowerCase_eq {a b : Char} (ha : isDisputed a = false)
    (hb : isDisputed b = false) : foldCase a = foldCase b ↔ lowerCase a = lowerCase b := by
  by_cases hadot : a.toNat = 0x130
  · exact ⟨fun h => congrArg _ (eq_of_foldCase_or_lowerCase hadot (Or.inl h)),
      fun h => congrArg _ (eq_of_foldCase_or_lowerCase hadot (Or.inr h))⟩
  · by_cases hbdot : b.toNat = 0x130
    · exact ⟨fun h => congrArg _ (eq_of_foldCase_or_lowerCase hbdot (Or.inl h.symm)).symm,
        fun h => congrArg _ (eq_of_foldCase_or_lowerCase hbdot (Or.inr h.symm)).symm⟩
    · rw [lowerCase_eq_of_not_isDisputed ha hadot, lowerCase_eq_of_not_isDisputed hb hbdot]
      refine ⟨fun h => by rw [h], fun h => ?_⟩
      have hcode := congrArg Char.toNat (List.singleton_inj.mp h)
      rw [toNat_ofNat_smallCode, toNat_ofNat_smallCode] at hcode
      exact Char.toNat_inj.mp (smallCode_injective (not_isSmallCherokee_foldCase a)
        (not_isSmallCherokee_foldCase b) hcode)

/-- A young capital stays as it is in folding, as does its small letter, while lower-casing takes
the one to the other. So its small letter is its rival. -/
theorem exists_rival_of_young {c : Char} (h : youngLowers.covers c.toNat = true) :
    ∃ d, isDisputed d = false ∧ ¬(foldCase c = foldCase d ↔ lowerCase c = lowerCase d) := by
  obtain ⟨hfirst, hlast, -⟩ := covers_iff.mp h
  dsimp only [youngLowers] at hfirst hlast
  have hd : (Char.ofNat (c.toNat + 27)).toNat = c.toNat + 27 := toNat_ofNat (by omega)
  -- no run of the folding table touches the young letters, small or capital
  have hfold : ∀ code, 0x16EA0 ≤ code ∧ code ≤ 0x16ED3 → send foldRuns code = code := by
    intro code hcode
    refine send_eq_self fun run hrun => Bool.eq_false_iff.mpr fun hcovers => ?_
    have hstarts := startsOutside_iff.mp (List.all_eq_true.mp (Checks.youngFolds checks) run hrun)
    obtain ⟨hge, hle, -⟩ := covers_iff.mp hcovers
    omega
  have hlower : send lowerRuns c.toNat = c.toNat + 27 := by
    have hmem := List.contains_iff_mem.mp (Checks.mem_youngLowers checks)
    rw [send_eq_of_mem ascending_lowerRuns hmem h, youngLowers]
    dsimp only
    omega
  -- and none of the other table begins at the small ones
  have hstays : send lowerRuns (c.toNat + 27) = c.toNat + 27 := by
    refine send_eq_self fun run hrun => Bool.eq_false_iff.mpr fun hcovers => ?_
    have hstarts := startsOutside_iff.mp (List.all_eq_true.mp (Checks.youngImages checks) run hrun)
    obtain ⟨hge, hle, -⟩ := covers_iff.mp hcovers
    dsimp only at hstarts
    omega
  refine ⟨Char.ofNat (c.toNat + 27), ?_, fun hiff => ?_⟩
  · rw [isDisputed, hd, isDisputedCode, Bool.or_eq_false_iff]
    constructor
    · have hbelow : disputedCodes.all (Nat.blt · 0x16EA0) = true := by decide
      refine List.any_eq_false.mpr fun code hcode => ?_
      have hlt := Nat.blt_eq.mp (List.all_eq_true.mp hbelow code hcode)
      rw [Nat.beq_eq]
      omega
    · refine Bool.eq_false_iff.mpr fun hcovers => ?_
      have hle := (covers_iff.mp hcovers).2.1
      dsimp only [youngLowers] at hle
      omega
  · -- the two are the same in lower case, and folding tells them apart
    have hsame : lowerCase c = lowerCase (Char.ofNat (c.toNat + 27)) := by
      rw [lowerCase_eq_convert (by omega), lowerCase_eq_convert (by omega), convert, convert,
        if_neg (by omega), if_neg (by omega), hd, hlower, hstays]
    have hfolded := congrArg Char.toNat (hiff.mpr hsame)
    rw [foldCase_eq_convert, foldCase_eq_convert, toNat_convert sendsToChars_foldRuns (by omega),
      toNat_convert sendsToChars_foldRuns (by omega), hd, hfold _ (by omega), hfold _ (by omega)]
      at hfolded
    omega

/-- **Each disputed character has an undisputed one that it is a variant of under one of the two
only.** -/
theorem exists_rival {c : Char} (h : isDisputed c = true) :
    ∃ d, isDisputed d = false ∧ ¬(foldCase c = foldCase d ↔ lowerCase c = lowerCase d) := by
  have hdot : c.toNat ≠ 0x130 := by
    intro hc
    rw [isDisputed, hc] at h
    revert h
    decide
  rw [isDisputed, isDisputedCode, Bool.or_eq_true] at h
  -- a disputed character is in the list with a rival, or it is young
  rcases h with hsingle | hyoung
  · obtain ⟨code, hcode, heq⟩ := List.any_eq_true.mp hsingle
    obtain ⟨⟨first, rival⟩, hpair, rfl⟩ := List.mem_map.mp hcode
    have hrival := List.all_eq_true.mp (Checks.rivals checks) _ hpair
    simp only [isRival, Bool.and_eq_true, Bool.not_eq_true', bne_iff_ne, beq_iff_eq,
      ne_eq] at hrival
    obtain ⟨⟨⟨hchar, hd⟩, hddot⟩, hdiffer⟩ := hrival
    rw [← hchar] at hd hddot hdiffer
    refine ⟨Char.ofNat rival, hd, fun hiff => hdiffer ?_⟩
    rw [foldCase_eq_convert, foldCase_eq_convert, lowerCase_eq_convert hdot,
      lowerCase_eq_convert hddot, List.singleton_inj] at hiff
    simp only [convert_eq_soughtIn ascending_foldRuns, convert_eq_soughtIn ascending_lowerRuns,
      Nat.beq_eq.mp heq] at hiff
    rw [Bool.eq_iff_iff, beq_iff_eq, beq_iff_eq]
    exact hiff
  · exact exists_rival_of_young hyoung

end StepPhrase.Unicode
