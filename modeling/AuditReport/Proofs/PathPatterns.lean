import AuditReport.Log.Like
import Mathlib.Data.List.TakeWhile
import Mathlib.Tactic.Tauto

/-! Texts that begin as a pattern of the log says. A text that begins with the pattern itself always
does. Other texts do too, unless all characters of the pattern stand for themselves alone: letters
stand for both cases, the replacement character and the two behind it for one another, percent signs
and underscores for other characters, and a null character ends the pattern. -/

namespace AuditReport.Log

/-! ## Letters -/

variable {p c : Char}

theorem isAlpha_eq (c : Char) : c.isAlpha = (c.isUpper || c.isLower) := rfl

theorem toNat_lt_of_isAlpha (h : c.isAlpha = true) : c.toNat < 123 := by
  rw [isAlpha_eq, Bool.or_eq_true] at h
  rcases h with hupper | hlower
  · have hbound : c.val ≤ 90 := (of_decide_eq_true hupper).2
    exact Nat.lt_of_le_of_lt (UInt32.le_iff_toNat_le.mp hbound) (by decide)
  · have hbounds : (decide (97 ≤ c.val) && decide (c.val ≤ 122)) = true := hlower
    have hbound : c.val ≤ 122 := of_decide_eq_true (Bool.and_eq_true_iff.mp hbounds).2
    exact Nat.lt_of_le_of_lt (UInt32.le_iff_toNat_le.mp hbound) (by decide)

theorem toLower_eq_self (h : c.isAlpha = false) : c.toLower = c := by
  rw [isAlpha_eq, Bool.or_eq_false_iff] at h
  exact dif_neg (of_decide_eq_false h.1)

/-- The character is compared as the replacement character: it is that or one of the two behind it. -/
def isReplacement (c : Char) : Bool := 0xFFFD ≤ c.toNat && c.toNat ≤ 0xFFFF

/-- No other character is compared as the same one. -/
def isAlone (c : Char) : Bool := !c.isAlpha && !isReplacement c

theorem letter_eq_self (h : isAlone c = true) : letter c = c := by
  rw [isAlone, Bool.and_eq_true, Bool.not_eq_true', Bool.not_eq_true'] at h
  have hreplacement : ¬(c.toNat = 0xFFFE ∨ c.toNat = 0xFFFF) := by
    have hrange := h.2
    simp only [isReplacement, Bool.and_eq_false_iff, decide_eq_false_iff_not] at hrange
    omega
  rw [letter, if_neg hreplacement, toLower_eq_self h.1]

/-- A letter has another case, and in lower case it is still a letter. -/
theorem exists_otherCase (h : c.isAlpha = true) :
    isAlone (letter c) = false ∧ ∃ d, d ≠ c ∧ sameLetter c d = true := by
  have hall : ∀ k : Fin 123, (Char.ofNat k).isAlpha = true →
      isAlone (letter (Char.ofNat k)) = false ∧
        let d := Char.ofNat (if (k : Nat) < 97 then k + 32 else k - 32)
        d ≠ Char.ofNat k ∧ sameLetter (Char.ofNat k) d = true := by
    decide
  have hletter := hall ⟨c.toNat, toNat_lt_of_isAlpha h⟩
  rw [Char.ofNat_toNat] at hletter
  obtain ⟨hlower, hother⟩ := hletter h
  exact ⟨hlower, _, hother⟩

/-- The replacement character and the two behind it are compared as one. -/
theorem exists_otherReplacement (h : isReplacement c = true) :
    isAlone (letter c) = false ∧ ∃ d, d ≠ c ∧ sameLetter c d = true := by
  have hall : ∀ k : Fin 3, isAlone (letter (Char.ofNat (0xFFFD + k))) = false ∧
      let d := Char.ofNat (0xFFFD + (k + 1) % 3)
      d ≠ Char.ofNat (0xFFFD + k) ∧ sameLetter (Char.ofNat (0xFFFD + k)) d = true := by
    decide
  rw [isReplacement, Bool.and_eq_true, decide_eq_true_eq, decide_eq_true_eq] at h
  have hreplacement := hall ⟨c.toNat - 0xFFFD, by omega⟩
  have hc : 0xFFFD + (c.toNat - 0xFFFD) = c.toNat := by omega
  dsimp only at hreplacement
  rw [hc, Char.ofNat_toNat] at hreplacement
  exact ⟨hreplacement.1, _, hreplacement.2⟩

/-- A character that is not alone is compared as another one, and what it is compared as is not alone
either. -/
theorem exists_twin (h : isAlone c = false) :
    isAlone (letter c) = false ∧ ∃ d, d ≠ c ∧ sameLetter c d = true := by
  rw [isAlone, Bool.and_eq_false_iff, Bool.not_eq_false', Bool.not_eq_false'] at h
  exact h.elim exists_otherCase exists_otherReplacement

theorem sameLetter_self (c : Char) : sameLetter c c = true := beq_self_eq_true _

/-- A character that is alone is the same as nothing but itself. -/
theorem eq_of_sameLetter (hp : isAlone p = true) (h : sameLetter p c = true) : c = p := by
  have h : letter p = letter c := eq_of_beq h
  rw [letter_eq_self hp] at h
  cases hc : isAlone c with
  | false =>
    rw [h, (exists_twin hc).1] at hp
    cases hp
  | true => rw [h, letter_eq_self hc]

theorem map_letter {cs : List Char} (h : ∀ c ∈ cs, isAlone c = true) : cs.map letter = cs :=
  (List.map_congr_left fun c hc => letter_eq_self (h c hc)).trans (List.map_id cs)

theorem letter_eq_null : letter c = '\x00' ↔ c = '\x00' := by
  constructor
  · intro h
    exact eq_of_sameLetter (p := '\x00') (by decide) (beq_iff_eq.mpr h.symm)
  · rintro rfl
    decide

/-! ## What a pattern spells -/

variable {ps qs cs ds : List Char}

/-- A pattern spells a text: a percent sign spells any text, an underscore any one character, and
any other character what is compared as the same. -/
inductive Spells : (pattern text : List Char) → Prop
  | nil : Spells [] []
  | stretch {ps cs : List Char} (front : List Char) (h : Spells ps cs) :
    Spells ('%' :: ps) (front ++ cs)
  | single {ps cs : List Char} (c : Char) (h : Spells ps cs) : Spells ('_' :: ps) (c :: cs)
  | letter {p c : Char} {ps cs : List Char} (hp : p ≠ '%') (hpc : sameLetter p c = true)
    (h : Spells ps cs) : Spells (p :: ps) (c :: cs)

theorem anyEnd_iff {q : List Char → Bool} :
    anyEnd q cs = true ↔ ∃ front rest, cs = front ++ rest ∧ q rest = true := by
  induction cs with
  | nil =>
    constructor
    · exact fun h => ⟨[], [], rfl, h⟩
    · rintro ⟨front, rest, hnil, h⟩
      obtain ⟨-, rfl⟩ := List.append_eq_nil_iff.mp hnil.symm
      exact h
  | cons c cs ih =>
    rw [anyEnd, Bool.or_eq_true, ih]
    constructor
    · rintro (h | ⟨front, rest, rfl, h⟩)
      · exact ⟨[], _, rfl, h⟩
      · exact ⟨c :: front, rest, rfl, h⟩
    · rintro ⟨front, rest, hcs, h⟩
      cases front with
      | nil => exact .inl (hcs ▸ h)
      | cons d front => exact .inr ⟨front, rest, (List.cons.inj hcs).2, h⟩

theorem matchesAll_iff : matchesAll ps cs = true ↔ Spells ps cs := by
  induction ps generalizing cs with
  | nil =>
    rw [matchesAll, List.isEmpty_iff]
    exact ⟨fun h => h ▸ .nil, fun h => by cases h; rfl⟩
  | cons p ps ih =>
    unfold matchesAll
    split
    · next hp =>
      rw [anyEnd_iff, hp]
      constructor
      · rintro ⟨front, rest, rfl, h⟩
        exact .stretch front (ih.mp h)
      · intro h
        cases h with
        | stretch front h => exact ⟨front, _, rfl, ih.mpr h⟩
        | letter hne _ _ => exact absurd rfl hne
    · next hp =>
      constructor
      · intro h
        cases cs with
        | nil => cases h
        | cons c cs =>
          simp only [Bool.and_eq_true, Bool.or_eq_true, decide_eq_true_eq] at h
          obtain ⟨rfl | hpc, h⟩ := h
          · exact .single c (ih.mp h)
          · exact .letter hp hpc (ih.mp h)
      · intro h
        cases h with
        | stretch front h => exact absurd rfl hp
        | single c h => simp [ih.mpr h]
        | letter _ hpc h => simp [hpc, ih.mpr h]

/-- Every pattern spells itself. -/
theorem Spells.refl (cs : List Char) : Spells cs cs := by
  induction cs with
  | nil => exact .nil
  | cons c cs ih =>
    by_cases hc : c = '%'
    · exact hc ▸ .stretch ['%'] ih
    · exact .letter hc (sameLetter_self c) ih

theorem Spells.append (h : Spells ps cs) (h' : Spells qs ds) : Spells (ps ++ qs) (cs ++ ds) := by
  induction h with
  | nil => exact h'
  | stretch front _ ih =>
    rw [List.append_assoc]
    exact .stretch front ih
  | single c _ ih => exact .single c ih
  | letter hp hpc _ ih => exact .letter hp hpc ih

/-- What one pattern behind another spells is what the first and what the second spells. -/
theorem Spells.split (h : Spells (ps ++ qs) cs) :
    ∃ front rest, cs = front ++ rest ∧ Spells ps front ∧ Spells qs rest := by
  induction ps generalizing cs with
  | nil => exact ⟨[], cs, rfl, .nil, h⟩
  | cons p ps ih =>
    cases h with
    | stretch skipped h =>
      obtain ⟨front, rest, rfl, hfront, hrest⟩ := ih h
      exact ⟨skipped ++ front, rest, (List.append_assoc ..).symm, .stretch skipped hfront, hrest⟩
    | single c h =>
      obtain ⟨front, rest, rfl, hfront, hrest⟩ := ih h
      exact ⟨c :: front, rest, rfl, .single c hfront, hrest⟩
    | letter hp hpc h =>
      obtain ⟨front, rest, rfl, hfront, hrest⟩ := ih h
      exact ⟨_ :: front, rest, rfl, .letter hp hpc hfront, hrest⟩

/-- With a percent sign behind it, a pattern spells what begins with something that it spells. -/
theorem spells_percent : Spells (ps ++ ['%']) cs ↔ ∃ front, front <+: cs ∧ Spells ps front := by
  constructor
  · intro h
    obtain ⟨front, rest, rfl, hfront, -⟩ := h.split
    exact ⟨front, List.prefix_append _ _, hfront⟩
  · rintro ⟨front, ⟨rest, rfl⟩, h⟩
    have hrest : Spells ['%'] (rest ++ []) := .stretch rest .nil
    rw [List.append_nil] at hrest
    exact h.append hrest

/-- Where nothing stands for other characters, a pattern spells the same letters. -/
theorem spells_letters (h : ∀ p ∈ ps, p ≠ '%' ∧ p ≠ '_') :
    Spells ps cs ↔ ps.map letter = cs.map letter := by
  induction ps generalizing cs with
  | nil =>
    rw [List.map_nil, eq_comm, List.map_eq_nil_iff]
    exact ⟨fun h => by cases h; rfl, fun h => h ▸ .nil⟩
  | cons p ps ih =>
    obtain ⟨⟨hpercent, hunderscore⟩, h⟩ := List.forall_mem_cons.mp h
    constructor
    · intro hspells
      cases hspells with
      | stretch => exact absurd rfl hpercent
      | single => exact absurd rfl hunderscore
      | letter _ hpc hrest =>
        have hpc : letter p = letter _ := eq_of_beq hpc
        rw [List.map_cons, List.map_cons, hpc, (ih h).mp hrest]
    · intro hsame
      cases cs with
      | nil => cases hsame
      | cons c cs =>
        obtain ⟨hpc, hsame⟩ := List.cons.inj hsame
        exact .letter hpercent (beq_iff_eq.mpr hpc) ((ih h).mpr hsame)

/-! ## The part that is compared -/

theorem null_notMem_compared (cs : List Char) : '\x00' ∉ compared cs := by
  intro h
  have hother := List.mem_takeWhile_imp (p := (· != '\x00')) h
  cases hother

theorem compared_append (h : '\x00' ∉ cs) : compared (cs ++ ds) = cs ++ compared ds :=
  List.takeWhile_append_of_pos fun _ hc => bne_iff_ne.mpr fun hnull => h (hnull ▸ hc)

theorem compared_eq_self (h : '\x00' ∉ cs) : compared cs = cs := by
  have hend : compared [] = [] := rfl
  have happend : compared (cs ++ []) = cs ++ compared [] := compared_append h
  rwa [hend, List.append_nil] at happend

theorem compared_append_of_mem (h : '\x00' ∈ cs) : compared (cs ++ ds) = compared cs := by
  obtain ⟨front, rest, rfl, hfront⟩ := List.eq_append_cons_of_mem h
  rw [List.append_assoc, compared_append hfront, compared_append hfront]
  rfl

theorem length_compared_lt (h : '\x00' ∈ cs) : (compared cs).length < cs.length := by
  obtain ⟨front, rest, rfl, hfront⟩ := List.eq_append_cons_of_mem h
  have hend : compared ('\x00' :: rest) = [] := rfl
  rw [compared_append hfront, hend, List.length_append, List.length_append]
  simp

theorem prefix_compared (h : '\x00' ∉ ps) : ps <+: compared cs ↔ ps <+: cs := by
  constructor
  · exact fun hps => hps.trans (List.takeWhile_prefix _)
  · rintro ⟨rest, rfl⟩
    rw [compared_append h]
    exact List.prefix_append _ _

/-! ## Beginnings -/

variable {pattern text : String}

/-- What it means that a text begins as a pattern says: something at its beginning is spelled by the
pattern. A pattern that a null character ends has to spell all of the text that is compared. -/
def Begins (pattern text : String) : Prop :=
  if '\x00' ∈ pattern.toList then Spells (compared pattern.toList) (compared text.toList)
  else ∃ front, front <+: compared text.toList ∧ Spells pattern.toList front

theorem likePrefix_iff : likePrefix pattern text = true ↔ Begins pattern text := by
  rw [likePrefix, like_eq, matchesAll_iff, Begins]
  split
  · next h => rw [compared_append_of_mem h]
  · next h =>
    have hpercent : compared ['%'] = ['%'] := rfl
    rw [compared_append h, hpercent, spells_percent]

/-- A text that begins with the pattern itself begins as it says. -/
theorem begins_of_prefix (h : pattern.toList <+: text.toList) : Begins pattern text := by
  unfold Begins
  split
  · next hnull =>
    obtain ⟨rest, hrest⟩ := h
    rw [← hrest, compared_append_of_mem hnull]
    exact .refl _
  · next hnull => exact ⟨pattern.toList, (prefix_compared hnull).mpr h, .refl _⟩

/-- No character of the pattern stands for other texts or ends it. -/
def IsPlain (pattern : String) : Prop := ∀ p ∈ pattern.toList, p ≠ '%' ∧ p ≠ '_' ∧ p ≠ '\x00'

/-- All characters of the pattern stand for themselves alone. -/
def IsExact (pattern : String) : Prop :=
  IsPlain pattern ∧ ∀ p ∈ pattern.toList, isAlone p = true

instance : Decidable (IsPlain pattern) :=
  List.decidableBAll (fun p => p ≠ '%' ∧ p ≠ '_' ∧ p ≠ '\x00') pattern.toList

instance : Decidable (IsExact pattern) :=
  have := List.decidableBAll (fun p : Char => isAlone p = true) pattern.toList
  inferInstanceAs (Decidable (IsPlain pattern ∧ ∀ p ∈ pattern.toList, isAlone p = true))

/-- A plain pattern is compared character by character, each as its `letter`. -/
theorem begins_iff_of_isPlain (h : IsPlain pattern) : Begins pattern text ↔
    pattern.toList.map letter <+: text.toList.map letter := by
  have hnull : '\x00' ∉ pattern.toList := fun hmem => (h _ hmem).2.2 rfl
  have hletters : '\x00' ∉ pattern.toList.map letter := by
    intro hmem
    obtain ⟨p, hp, hpnull⟩ := List.mem_map.mp hmem
    exact (h p hp).2.2 (letter_eq_null.mp hpnull)
  have hcompared : (compared text.toList).map letter = compared (text.toList.map letter) := by
    unfold compared
    rw [List.takeWhile_map]
    refine congrArg (fun q => (text.toList.takeWhile q).map letter) (funext fun c => ?_)
    rw [Bool.eq_iff_iff, bne_iff_ne, Function.comp_apply, bne_iff_ne, ne_eq, ne_eq, letter_eq_null]
  rw [Begins, if_neg hnull, ← prefix_compared hletters, ← hcompared, List.prefix_map_iff]
  simp only [spells_letters fun p hp => ⟨(h p hp).1, (h p hp).2.1⟩]

theorem begins_iff_of_isExact (h : IsExact pattern) :
    Begins pattern text ↔ pattern.toList <+: text.toList := by
  refine ⟨fun hbegins => ?_, begins_of_prefix⟩
  rw [begins_iff_of_isPlain h.1, map_letter h.2, List.prefix_map_iff] at hbegins
  obtain ⟨front, hfront, hsame⟩ := hbegins
  have halone : ∀ c ∈ front, isAlone c = true := by
    intro c hc
    have hletter := h.2 (letter c) (hsame ▸ List.mem_map_of_mem hc)
    by_contra htwin
    rw [(exists_twin (eq_false_of_ne_true htwin)).1] at hletter
    cases hletter
  rw [hsame, map_letter halone]
  exact hfront

/-- A character that does not stand for itself alone spells something else, too. -/
theorem exists_otherSpelling (hnull : c ≠ '\x00')
    (h : ¬(c ≠ '%' ∧ c ≠ '_' ∧ isAlone c = true)) :
    ∃ cs, cs ≠ [c] ∧ cs.length ≤ 1 ∧ '\x00' ∉ cs ∧ Spells [c] cs := by
  by_cases hpercent : c = '%'
  · exact ⟨[], nofun, by decide, List.not_mem_nil, hpercent ▸ .stretch [] .nil⟩
  by_cases hunderscore : c = '_'
  · subst hunderscore
    exact ⟨['-'], by decide, by decide, by decide, .single '-' .nil⟩
  have htwin : isAlone c = false := by
    simpa [hpercent, hunderscore] using h
  obtain ⟨-, d, hne, hsame⟩ := exists_twin htwin
  refine ⟨[d], fun heq => hne (List.cons.inj heq).1, Nat.le_refl 1, ?_, .letter hpercent hsame .nil⟩
  intro hmem
  have hd : d = '\x00' := (List.mem_singleton.mp hmem).symm
  subst hd
  exact hnull (letter_eq_null.mp (eq_of_beq hsame))

/-- Just the exact patterns say no more than what a text has to begin with. -/
theorem begins_iff_prefix : (∀ text, Begins pattern text ↔ pattern.toList <+: text.toList) ↔
    IsExact pattern := by
  refine ⟨fun h => ?_, fun h text => begins_iff_of_isExact h⟩
  have hshorter : ∀ cs : List Char, Begins pattern (String.ofList cs) → pattern.toList <+: cs := by
    intro cs hcs
    have := (h _).mp hcs
    rwa [String.toList_ofList] at this
  have hnull : '\x00' ∉ pattern.toList := by
    intro hmem
    have hbegins : Begins pattern (String.ofList (compared pattern.toList)) := by
      rw [Begins, if_pos hmem, String.toList_ofList, compared_eq_self (null_notMem_compared _)]
      exact .refl _
    exact absurd (hshorter _ hbegins).length_le (Nat.not_le.mpr (length_compared_lt hmem))
  have hown : ∀ p ∈ pattern.toList, p ≠ '%' ∧ p ≠ '_' ∧ isAlone p = true := by
    intro p hp
    by_contra hother
    have hpnull : p ≠ '\x00' := fun heq => hnull (heq ▸ hp)
    obtain ⟨cs, hne, hlength, hcs, hspells⟩ := exists_otherSpelling hpnull hother
    obtain ⟨front, rest, hpattern⟩ := List.append_of_mem hp
    have hbegins : Begins pattern (String.ofList (front ++ (cs ++ rest))) := by
      have hcompared : '\x00' ∉ front ++ (cs ++ rest) := by
        rw [hpattern, List.mem_append, List.mem_cons] at hnull
        rw [List.mem_append, List.mem_append]
        tauto
      rw [Begins, if_neg hnull, String.toList_ofList, compared_eq_self hcompared, hpattern]
      exact ⟨_, List.prefix_refl _, (Spells.refl front).append (hspells.append (.refl rest))⟩
    have hprefix := hshorter _ hbegins
    rw [hpattern, List.prefix_append_right_inj] at hprefix
    -- It takes one character at least to begin with the pattern, and that would be `p` itself.
    match cs, hlength with
    | [], _ => exact absurd hprefix.length_le (Nat.not_succ_le_self _)
    | [d], _ => exact hne (congrArg ([·]) (List.cons_prefix_cons.mp hprefix).1.symm)
  exact ⟨fun p hp => ⟨(hown p hp).1, (hown p hp).2.1, fun heq => hnull (heq ▸ hp)⟩,
    fun p hp => (hown p hp).2.2⟩

end AuditReport.Log
