import AuditReport.Proofs.EqualValues
import AuditReport.Proofs.ExportTables
import Mathlib.Algebra.Ring.Nat
import Mathlib.Order.Nat

/-! The number of pages. It is told as a quotient of doubles, rounded up; as long as the number of
rows is one that doubles hold exactly, this is the exact number of pages. -/

namespace AuditReport

open Fallible

/-- Two quotients that are above the same whole numbers are rounded up alike. -/
theorem pageCount_eq {rows limit rows' limit' : Nat} (hlimit : 1 ≤ limit) (hlimit' : 1 ≤ limit')
    (h : ∀ k, k * limit < rows ↔ k * limit' < rows') :
    pageCount rows limit = pageCount rows' limit' :=
  eq_of_forall_lt_iff fun k => by rw [lt_pageCount hlimit, h, lt_pageCount hlimit']

namespace Number

variable {num den k : Nat}

/-! ## Rounding to a neighbour -/

theorem roundDiv_bounds (num den : Nat) :
    num / den ≤ roundDiv num den ∧ roundDiv num den ≤ num / den + 1 := by
  unfold roundDiv
  dsimp only
  split
  · omega
  · split
    · omega
    · split <;> omega

theorem le_roundDiv (hden : 0 < den) (h : k * den ≤ num) : k ≤ roundDiv num den :=
  Nat.le_trans ((Nat.le_div_iff_mul_le hden).mpr h) (roundDiv_bounds num den).1

/-- What is at most a whole number is not rounded beyond it. -/
theorem roundDiv_le (hden : 0 < den) (h : num ≤ k * den) : roundDiv num den ≤ k := by
  have hquotient : num / den ≤ k := Nat.div_le_of_le_mul (Nat.mul_comm k den ▸ h)
  rcases Nat.lt_or_eq_of_le hquotient with hlt | heq
  · exact Nat.le_trans (roundDiv_bounds num den).2 hlt
  · have hparts := Nat.div_add_mod num den
    rw [heq, Nat.mul_comm] at hparts
    unfold roundDiv
    dsimp only
    rw [if_pos (by omega), heq]

/-- What is more than half a unit above a whole number is rounded beyond it. -/
theorem lt_roundDiv (hden : 0 < den) (h : (2 * k + 1) * den < 2 * num) : k < roundDiv num den := by
  have hparts := Nat.div_add_mod num den
  have hrest := Nat.mod_lt num hden
  rw [Nat.add_mul, Nat.mul_assoc] at h
  have hquotient : k ≤ num / den := by
    rw [Nat.le_div_iff_mul_le hden]
    omega
  rcases Nat.lt_or_eq_of_le hquotient with hlt | heq
  · exact Nat.lt_of_lt_of_le hlt (roundDiv_bounds num den).1
  · rw [← heq, Nat.mul_comm] at hparts
    unfold roundDiv
    dsimp only
    rw [if_neg (by omega), if_pos (by omega), ← heq]
    exact Nat.lt_succ_self k

/-! ## The unit of a quotient -/

theorem hiddenBit_eq : hiddenBit = 2 ^ 52 := by decide

/-- A unit that is small enough by the numbers of binary digits is small enough. -/
theorem hiddenBit_le_of_log2 (hnum : num ≠ 0) {e : Int}
    (he : e = (num.log2 : Int) - den.log2 - precision) :
    (inBinaryUnits num den e).2 * hiddenBit ≤ (inBinaryUnits num den e).1 := by
  have hlow : 2 ^ num.log2 ≤ num := Nat.log2_self_le hnum
  have hhigh : den ≤ 2 ^ (den.log2 + 1) := Nat.le_of_lt Nat.lt_log2_self
  unfold precision at he
  unfold inBinaryUnits
  split
  · obtain ⟨k, rfl⟩ : ∃ k : Nat, e = k := ⟨e.toNat, by omega⟩
    have hlog : num.log2 = den.log2 + 1 + k + 52 := by omega
    calc den * 2 ^ k * hiddenBit ≤ 2 ^ (den.log2 + 1) * 2 ^ k * hiddenBit :=
          Nat.mul_le_mul_right _ (Nat.mul_le_mul_right _ hhigh)
      _ = 2 ^ num.log2 := by rw [hiddenBit_eq, hlog, ← pow_add, ← pow_add]
      _ ≤ num := hlow
  · obtain ⟨k, rfl⟩ : ∃ k : Nat, e = -k := ⟨(-e).toNat, by omega⟩
    have hlog : den.log2 + 1 + 52 = num.log2 + k := by omega
    rw [Int.neg_neg, Int.toNat_natCast]
    calc den * hiddenBit ≤ 2 ^ (den.log2 + 1) * hiddenBit := Nat.mul_le_mul_right _ hhigh
      _ = 2 ^ num.log2 * 2 ^ k := by rw [hiddenBit_eq, ← pow_add, ← pow_add, hlog]
      _ ≤ num * 2 ^ k := Nat.mul_le_mul_right _ hlow

/-- In its unit a quotient has all the binary digits that a double keeps before the point. -/
theorem hiddenBit_le_quotient (hnum : num ≠ 0) :
    (inBinaryUnits num den (quotientExponent num den)).2 * hiddenBit ≤
      (inBinaryUnits num den (quotientExponent num den)).1 := by
  unfold quotientExponent
  dsimp only
  split
  · exact hiddenBit_le_of_log2 hnum (by omega)
  · next h => exact Nat.le_of_not_lt h

/-! ## Quotients rounded up -/

/-- A quotient that is counted in a whole unit is not rounded at all: the unit divides the
dividend. -/
theorem lt_roundDiv_whole {unit j : Nat} (hden : 0 < den) (hunit : 0 < unit)
    (hlarge : den * unit * hiddenBit ≤ num) (hsmall : num ≤ 2 * hiddenBit) :
    j < roundDiv num (den * unit) * unit ↔ j * den < num := by
  have hpos : 0 < den * unit := Nat.mul_pos hden hunit
  have hexact : ∃ q, num = q * (den * unit) := by
    have hbit : 0 < hiddenBit := by decide
    have htwo : den * unit ≤ 2 := Nat.le_of_mul_le_mul_right (Nat.le_trans hlarge hsmall) hbit
    rcases (by omega : den * unit = 1 ∨ den * unit = 2) with hone | htwo
    · exact ⟨num, by rw [hone, Nat.mul_one]⟩
    · exact ⟨hiddenBit, by rw [htwo] at hlarge ⊢; omega⟩
  obtain ⟨q, rfl⟩ := hexact
  have hround : roundDiv (q * (den * unit)) (den * unit) = q :=
    Nat.le_antisymm (roundDiv_le hpos (Nat.le_refl _)) (le_roundDiv hpos (Nat.le_refl _))
  rw [hround, Nat.mul_comm den, ← Nat.mul_assoc]
  exact (Nat.mul_lt_mul_right hden).symm

/-- A quotient that is counted in parts of one is not rounded onto a whole number below it: the next
whole number is at least half a part away. -/
theorem lt_roundDiv_parts {parts j : Nat} (hden : 0 < den)
    (hlarge : den * hiddenBit ≤ num * parts) (hsmall : num ≤ 2 * hiddenBit) :
    j * parts < roundDiv (num * parts) den ↔ j * den < num := by
  constructor
  · intro h
    by_contra hle
    have hmul : num * parts ≤ j * parts * den := by
      rw [Nat.mul_right_comm]
      exact Nat.mul_le_mul_right parts (Nat.le_of_not_lt hle)
    exact absurd (roundDiv_le hden hmul) (Nat.not_le_of_lt h)
  · intro h
    have hnext : j * den * parts + parts ≤ num * parts := by
      rw [← Nat.succ_mul]
      exact Nat.mul_le_mul_right parts h
    have hbit : 0 < hiddenBit := by decide
    have hhalf : den ≤ 2 * parts := by
      refine Nat.le_of_mul_le_mul_right (Nat.le_trans hlarge ?_) hbit
      rw [Nat.mul_right_comm]
      exact Nat.mul_le_mul_right parts hsmall
    have hproducts : 2 * (j * parts) * den = 2 * (j * den * parts) := by
      rw [Nat.mul_assoc, Nat.mul_right_comm]
    rcases Nat.lt_or_eq_of_le hhalf with hlt | rfl
    · refine lt_roundDiv hden ?_
      rw [Nat.add_mul, Nat.one_mul, hproducts]
      omega
    · -- With half a part to go the quotient is a power of two, which is not rounded.
      refine Nat.lt_of_lt_of_le ?_ (le_roundDiv hden (Nat.mul_comm _ hiddenBit ▸ hlarge))
      rw [Nat.mul_left_comm] at h
      omega

/-- As long as the dividend has no more binary digits than a double keeps, a rounded quotient is
above the same whole numbers as the exact one. -/
theorem lt_nearestQuotient {j : Nat} (hden : 0 < den) (hnum : num ≠ 0)
    (hsmall : num ≤ 2 * hiddenBit) :
    let r := ratio (nearestQuotient num den).1 (nearestQuotient num den).2
    j * r.2 < r.1 ↔ j * den < num := by
  have hlarge : _ * hiddenBit ≤ (inBinaryUnits num den _).1 := hiddenBit_le_quotient hnum
  unfold nearestQuotient
  dsimp only
  generalize quotientExponent num den = e at hlarge ⊢
  by_cases hwhole : 0 ≤ e
  · simp only [inBinaryUnits, ratio, if_pos hwhole, Nat.mul_one] at hlarge ⊢
    exact lt_roundDiv_whole hden (Nat.pow_pos Nat.two_pos) hlarge hsmall
  · simp only [inBinaryUnits, ratio, if_neg hwhole] at hlarge ⊢
    exact lt_roundDiv_parts hden hlarge hsmall

/-- The quotient of doubles, rounded up, is the number of pages. -/
theorem ceilQuotient_eq (hden : 0 < den) (hsmall : num ≤ 2 * hiddenBit) :
    ceilQuotient num den = some (pageCount num den : Int) := by
  rw [ceilQuotient, if_pos (Int.natCast_nonneg num), Int.natAbs_natCast]
  unfold roundedQuotient
  by_cases hnum : num = 0
  · have hnone : pageCount 0 den = 0 := Nat.div_eq_of_lt (by omega)
    rw [if_pos hnum, hnum, hnone]
    rfl
  rw [if_neg hnum]
  have habove : ∀ j, _ := fun j => lt_nearestQuotient hden hnum hsmall (j := j)
  have hpos := ratio_pos (nearestQuotient num den).1 (nearestQuotient num den).2
  dsimp only at habove ⊢
  generalize ratio (nearestQuotient num den).1 (nearestQuotient num den).2 = r at habove hpos ⊢
  have hbound : r.1 < doubleBound * r.2 := by
    have hquotient : r.1 ≤ num * r.2 := by
      refine Nat.le_of_not_lt fun hlt => ?_
      have hself := (habove num).mp hlt
      exact absurd (Nat.le_mul_of_pos_right num hden) (Nat.not_le_of_lt hself)
    have hdouble : 2 * hiddenBit < doubleBound := by decide +kernel
    exact Nat.lt_of_le_of_lt hquotient
      (Nat.mul_lt_mul_of_pos_right (Nat.lt_of_le_of_lt hsmall hdouble) hpos)
  rw [if_pos hbound, if_pos rfl, ← pageCount_eq hpos hden habove]
  rfl

end Number

namespace Page

theorem count_int {total limit : Nat} (hlimit : 1 ≤ limit) (htotal : total ≤ Nat.pow 2 53) :
    count (.int total) limit = .ok (pageCount total limit : Int) := by
  simp only [count, Number.ceilQuotient_eq hlimit htotal]

end Page

/-! ## Windows -/

/-- If one page of a request has a query, each of its pages has one, which keeps the page's rows. -/
theorem Blueprint.window_buildPage {blueprint : Blueprint} {q : ReportQuery} {p : Pipeline}
    (h : blueprint.buildPage q = .ok p) (page : Int) :
    ∃ paged, blueprint.buildPage { q with page } = .ok paged ∧ ∀ {α : Type} (rows : List α),
      paged.window rows = (rows.drop ((page - 1) * q.limit).toNat).take q.limit.toNat := by
  have hstages := build_ok h
  rw [stages_eq_leading] at hstages
  obtain ⟨shared, hleading, hshared⟩ := map_ok_iff.mp hstages
  have hcheck : Pipeline.check (shared ++
      [.facet ((page - 1) * q.limit) q.limit blueprint.catalog.paths]) = .ok () := by
    refine (Pipeline.checkFrom_terminal rfl rfl (Nat.zero_le _) (Nat.zero_le _)).trans
      (?_ : Pipeline.check (shared ++ [.facet q.skip q.limit blueprint.catalog.paths]) = .ok ())
    exact hshared ▸ p.ordered
  refine ⟨⟨_, hcheck⟩, ?_, fun rows => ?_⟩
  · have hof := Pipeline.of_eq_ok hcheck
    simp only [buildPage, build, stages_eq_leading, hleading, Except.map, ReportQuery.skip, hof]
  · rw [Pipeline.window, List.getLast?_concat, Option.elim_some, Stage.window]

namespace Service

open Backend

variable {T : Type} [LE T] [DecidableLE T] [Timeline T]

/-- **The page count is exact.** If the store finds up to `2 ^ 53` rows, the number of pages that is
told with a page is the quotient of the number of rows by the page size, exactly rounded up. Every
page that is answered tells it, and an allowed caller whose filters are valid and whose documents
make rows gets such an answer. The pages that show some of the rows are those up to this number. -/
theorem page_count_exact (s : Service) (u : User) (q : ReportQuery) (b : Backend T) (p : Pipeline)
    (answer found : List Value) (total : Nat) (hlimit : 1 ≤ q.limit ∧ q.limit ≤ 100)
    (htotal : total ≤ Nat.pow 2 53) (hbuild : s.blueprint.buildPage q = .ok p)
    (hanswer : b.store.aggregate auditCollection p.toValues = .ok answer)
    (hfound : Page.ofAnswer answer = .ok ⟨found, .int total⟩) :
    let pages := pageCount total q.limit.toNat
    let info : PageInfo := ⟨total, q.page, pages, q.limit⟩
    PageInfo.of (.int total) q.page q.limit = .ok info ∧
      (∀ page, ((s.page u q).run.run b).1 = .ok page → page.info = info) ∧
      (∀ rows, s.authorizer u = true → s.validate q = .ok () →
        ((Resolver.resolveRows b.now found).run.run b.resolver).1 = .ok rows →
        ((s.page u q).run.run b).1 = .ok ⟨rows, info⟩) ∧
      ∀ matching : List Document, matching.length = total → ∀ page : Int, 1 ≤ page →
        ∃ paged, s.blueprint.buildPage { q with page } = .ok paged ∧
          (paged.window matching ≠ [] ↔ page ≤ pages) := by
  intro pages info
  have hinfo : PageInfo.of (.int total) q.page q.limit = .ok info := by
    rw [PageInfo.of, Page.count_int (by omega) htotal]
    rfl
  have hpaged := Blueprint.isPage_of_build hbuild
  refine ⟨hinfo, fun page hpage => ?_, fun rows hu hvalid hrows => ?_, ?_⟩
  · have htold := (page_ok hbuild hpaged hanswer hfound hpage).2
    exact Except.ok.inj (htold.symm.trans hinfo)
  · exact page_answered hu hvalid hbuild hpaged hanswer hfound hrows hinfo
  · rintro matching rfl page hpage
    obtain ⟨paged, hpagedBuild, hwindow⟩ := Blueprint.window_buildPage hbuild page
    refine ⟨paged, hpagedBuild, ?_⟩
    obtain ⟨k, rfl⟩ : ∃ k : Nat, page = k + 1 := ⟨(page - 1).toNat, by omega⟩
    obtain ⟨limit, hl⟩ : ∃ limit : Nat, q.limit = limit := ⟨q.limit.toNat, by omega⟩
    have hskip : (((k : Int) + 1 - 1) * q.limit).toNat = k * q.limit.toNat := by
      rw [hl, Int.add_sub_cancel, ← Int.natCast_mul, Int.toNat_natCast, Int.toNat_natCast]
    rw [hwindow, hskip, page_ne_nil (by omega)]
    omega

/-- A page of three of as many rows as doubles can count. -/
theorem page_count_exact_threes :
    let s : Service := ⟨Audit.blueprint, superAdminsOnly, 30000⟩
    let admin : User := ⟨some "u-1", some "super_admin"⟩
    let answer : Document := [("data", .null),
      ("totalCount", .list [.object [("count", .int 9007199254740992)]])]
    let b : Backend Int := ⟨{ Store.empty with aggregate := fun _ _ => .ok [.object answer] }, [],
      Resolver.fresh .ok ⟨2, none⟩ 300 300, 60⟩
    ((s.page admin ⟨[], [], 7, 3, false⟩).run.run b).1 =
      .ok ⟨[], ⟨9007199254740992, 7, 3002399751580331, 3⟩⟩ := by
  intro s admin answer b
  obtain ⟨p, hp⟩ : ∃ p, Audit.blueprint.buildPage ⟨[], [], 7, 3, false⟩ = .ok p := ⟨_, rfl⟩
  obtain ⟨-, -, hanswered, -⟩ := page_count_exact s admin ⟨[], [], 7, 3, false⟩ b p
    [.object answer] [] 9007199254740992 (by decide) (by decide) hp rfl rfl
  exact hanswered [] (by decide) rfl rfl

end Service

end AuditReport
