import Dispatch.Store.Datasets
import Dispatch.Store.Uploads

/-!
# Part plans

An object is uploaded in one piece or in parts, and four places check the plan:
the worker before it asks, the server when the request arrives, the store when
it is declared and the object store before it signs a part. They compute the
number of parts by a rounded-up division, the first two with unsigned numbers
of 64 bits, which wrap, and the last two with signed ones.

No caller of the object store sets its limit, so it is the default.
-/

namespace Dispatch

variable {c : UploadClaims}

/-! ## Before the store -/

/-- The plan of a `CreateUploadRequest`. -/
structure WirePlan where
  kind : UploadKind
  sizeBytes : UInt64
  partCount : UInt32
  partSizeBytes : UInt64
  deriving DecidableEq, Repr

/-- A single part has no size of its own; several are of one size, and as many
as it takes. -/
def WirePlan.isPlan (minPart maxPart : UInt64) (maxParts : UInt32) (r : WirePlan) : Bool :=
  if r.partCount = 1 then decide (r.partSizeBytes = 0)
  else
    decide (r.kind = .output) && decide (2 ≤ r.partCount) && decide (r.partCount ≤ maxParts) &&
      decide (0 < r.sizeBytes) && decide (minPart ≤ r.partSizeBytes) &&
      decide (r.partSizeBytes ≤ maxPart) &&
      decide (r.partCount.toUInt64 = 1 + (r.sizeBytes - 1) / r.partSizeBytes)

/-- `valid_part_plan` of the worker: parts of 5 MiB to 64 MiB. -/
def WirePlan.validPartPlan (r : WirePlan) : Bool := r.isPlan 5242880 67108864 10000

/-- What `validate_create` of the worker checks of a plan. -/
def WirePlan.validateCreate (r : WirePlan) : Bool :=
  r.validPartPlan && !decide (67108864 < r.sizeBytes)

/-- `validWireUploadPlan` of the server, in 64 bits. -/
def validWireUploadPlan (r : WirePlan) : Bool :=
  r.isPlan (.ofNat minUploadPartBytes.toNat) (.ofNat maxUploadBytes.toNat)
    (.ofNat maxUploadParts.toNat)

/-- What `CreateUpload` of the server checks of a plan. -/
def WirePlan.createUpload (r : WirePlan) : Bool :=
  !decide (.ofNat maxUploadBytes.toNat < r.sizeBytes) && validWireUploadPlan r

/-- The plan as the store is given it. -/
def WirePlan.claims (r : WirePlan) (c : UploadClaims) : UploadClaims :=
  { c with
    kind := r.kind
    sizeBytes := r.sizeBytes.toNat
    partCount := r.partCount.toNat
    partSizeBytes := r.partSizeBytes.toNat }

/-! ## The object store -/

/-- The smallest part but the last, as the object store has it. -/
def minMultipartPartBytes : ℤ := 5 * 2 ^ 20

/-- The largest number of parts, as the object store has it. -/
def maxMultipartParts : ℤ := 10000

/-- The sizes of a `MultipartUpload`. -/
structure MultipartPlan where
  size : ℤ
  partSize : ℤ
  deriving DecidableEq, Repr

/-- The plan the object store is given. -/
def UploadClaims.multipartPlan (c : UploadClaims) : MultipartPlan := ⟨c.sizeBytes, c.partSizeBytes⟩

namespace MultipartPlan

variable (u : MultipartPlan)

/-- As many parts as it takes. -/
def partCount : ℤ := 1 + (u.size - 1) / u.partSize

/-- `validMultipartPlan` of the object store. -/
def validMultipartPlan : Bool :=
  decide (0 < u.size) && decide (u.size ≤ maxSinglePartBytes) &&
    decide (minMultipartPartBytes ≤ u.partSize) && decide (u.partSize ≤ maxSinglePartBytes) &&
    decide (u.partCount ≤ maxMultipartParts)

/-- Where a part begins. -/
def start (number : ℤ) : ℤ := (number - 1) * u.partSize

/-- `PresignPart`: the number of bytes that is signed for a part, if it is. -/
def presignPart (number : ℤ) : Option ℤ :=
  if u.validMultipartPlan = false ∨ number < 1 ∨ u.partCount < number then none
  else some (min u.partSize (u.size - u.start number))

end MultipartPlan

/-- The object store takes the plan: as one object, or as the same number of
parts. -/
def UploadClaims.planned (c : UploadClaims) : Bool :=
  if c.partCount = 1 then decide (0 ≤ c.sizeBytes) && decide (c.sizeBytes ≤ maxSinglePartBytes)
  else c.multipartPlan.validMultipartPlan && decide (c.multipartPlan.partCount = c.partCount)

/-! ## Agreement -/

/-- The rounded-up division does not wrap. -/
theorem WirePlan.parts_toNat {size part : UInt64} (hsize : 0 < size) (hpart : 2 ≤ part) :
    (1 + (size - 1) / part).toNat = 1 + (size.toNat - 1) / part.toNat := by
  have hone : (1 : UInt64) ≤ size := UInt64.le_iff_toNat_le.mpr (UInt64.lt_iff_toNat_lt.mp hsize)
  have htwo : 2 ≤ part.toNat := UInt64.le_iff_toNat_le.mp hpart
  have hquotient : (size.toNat - 1) / part.toNat ≤ (size.toNat - 1) / 2 :=
    Nat.div_le_div_left htwo (by decide)
  have hlt := size.toNat_lt
  rw [UInt64.toNat_add, UInt64.toNat_div, UInt64.toNat_sub_of_le _ _ hone, UInt64.toNat_one]
  exact Nat.mod_eq_of_lt (by omega)

/-- The worker's check, in natural numbers. -/
theorem WirePlan.validateCreate_iff (r : WirePlan) : r.validateCreate = true ↔
    r.sizeBytes.toNat ≤ 64 * 2 ^ 20 ∧
      (if r.partCount.toNat = 1 then r.partSizeBytes.toNat = 0
      else r.kind = .output ∧ 2 ≤ r.partCount.toNat ∧ r.partCount.toNat ≤ 10000 ∧
        0 < r.sizeBytes.toNat ∧ 5 * 2 ^ 20 ≤ r.partSizeBytes.toNat ∧
        r.partSizeBytes.toNat ≤ 64 * 2 ^ 20 ∧
        r.partCount.toNat = 1 + (r.sizeBytes.toNat - 1) / r.partSizeBytes.toNat) := by
  have hparts : 0 < r.sizeBytes → 5 * 2 ^ 20 ≤ r.partSizeBytes →
      (r.partCount.toUInt64 = 1 + (r.sizeBytes - 1) / r.partSizeBytes ↔
        r.partCount.toNat = 1 + (r.sizeBytes.toNat - 1) / r.partSizeBytes.toNat) := by
    intro hsize hpart
    rw [← parts_toNat hsize (UInt64.le_trans (by decide) hpart), ← UInt32.toNat_toUInt64,
      UInt64.toNat_inj]
  have hone : r.partCount = 1 ↔ r.partCount.toNat = 1 := UInt32.toNat_inj.symm
  unfold validateCreate validPartPlan isPlan
  simp only [hone, Bool.and_eq_true, Bool.not_eq_true', decide_eq_false_iff_not, UInt64.not_lt]
  rw [and_comm]
  refine and_congr UInt64.le_iff_toNat_le ?_
  split_ifs
  · rw [decide_eq_true_iff]
    exact UInt64.toNat_inj.symm
  · simp only [Bool.and_eq_true, decide_eq_true_iff, and_assoc]
    constructor
    · rintro ⟨hkind, htwo, hmax, hsize, hmin, hpart, heq⟩
      exact ⟨hkind, UInt32.le_iff_toNat_le.mp htwo, UInt32.le_iff_toNat_le.mp hmax,
        UInt64.lt_iff_toNat_lt.mp hsize, UInt64.le_iff_toNat_le.mp hmin,
        UInt64.le_iff_toNat_le.mp hpart, (hparts hsize hmin).mp heq⟩
    · rintro ⟨hkind, htwo, hmax, hsize, hmin, hpart, heq⟩
      have hsize' : 0 < r.sizeBytes := UInt64.lt_iff_toNat_lt.mpr hsize
      have hmin' : 5 * 2 ^ 20 ≤ r.partSizeBytes := UInt64.le_iff_toNat_le.mpr hmin
      exact ⟨hkind, UInt32.le_iff_toNat_le.mpr htwo, UInt32.le_iff_toNat_le.mpr hmax, hsize', hmin',
        UInt64.le_iff_toNat_le.mpr hpart, (hparts hsize' hmin').mpr heq⟩

/-- The worker and the server check the same. -/
theorem WirePlan.createUpload_eq (r : WirePlan) : r.createUpload = r.validateCreate :=
  Bool.and_comm _ _

/-- **The store checks the same** of an object that is small enough. -/
theorem WirePlan.validPartPlan_claims (r : WirePlan) (c : UploadClaims) :
    r.validateCreate = true ↔ (r.claims c).validPartPlan = true ∧
    r.sizeBytes.toNat ≤ 64 * 2 ^ 20 := by
  have hparts : ((r.partCount.toNat : ℤ) = 1
      + ((r.sizeBytes.toNat : ℤ) - 1) / r.partSizeBytes.toNat ↔
      r.partCount.toNat = 1 + (r.sizeBytes.toNat - 1) / r.partSizeBytes.toNat) ∨
      r.sizeBytes.toNat = 0 := by
    by_cases hzero : r.sizeBytes.toNat = 0
    · exact .inr hzero
    · refine .inl ?_
      rw [← Int.natCast_one, ← Nat.cast_sub (Nat.one_le_iff_ne_zero.mpr hzero), ← Int.natCast_div,
        ← Int.natCast_add, Int.natCast_inj]
  rw [validateCreate_iff, UploadClaims.validPartPlan, claims, maxUploadBytes, maxUploadParts,
    minUploadPartBytes, maxMultipartUploadBytes, and_comm]
  refine and_congr_left fun hsize => ?_
  by_cases hone : r.partCount.toNat = 1
  · simp only [hone, Nat.cast_one, if_true, Bool.and_eq_true, decide_eq_true_iff]
    omega
  · have hone' : (r.partCount.toNat : ℤ) ≠ 1 := by exact_mod_cast hone
    simp only [if_neg hone, if_neg hone', Bool.and_eq_true, decide_eq_true_iff, and_assoc]
    obtain hparts | hzero := hparts
    · rw [hparts]
      refine and_congr_right fun _ => ?_
      omega
    · omega

/-- A plan of the store has parts of one size, and the last is what is left. -/
theorem UploadClaims.validPartPlan_multipart (h : c.validPartPlan = true)
    (hparts : c.partCount ≠ 1) : 0 < c.sizeBytes ∧ minUploadPartBytes ≤ c.partSizeBytes ∧
      c.partSizeBytes ≤ maxUploadBytes ∧ c.partCount ≤ maxUploadParts ∧
      c.partCount = c.multipartPlan.partCount := by
  unfold validPartPlan at h
  simp only [if_neg hparts, Bool.and_eq_true, decide_eq_true_iff, and_assoc] at h
  obtain ⟨-, -, hmax, hsize, -, hmin, hpart, heq⟩ := h
  exact ⟨hsize, hmin, hpart, hmax, heq⟩

theorem UploadClaims.planned_of_validPartPlan (h : c.validPartPlan = true)
    (hsize : c.sizeBytes ≤ maxSinglePartBytes) : c.planned = true := by
  unfold planned
  by_cases hone : c.partCount = 1
  · unfold validPartPlan at h
    simp only [if_pos hone, Bool.and_eq_true, decide_eq_true_iff] at h ⊢
    exact ⟨h.1.2, hsize⟩
  · obtain ⟨hpos, hmin, hpart, hmax, heq⟩ := validPartPlan_multipart h hone
    rw [if_neg hone, MultipartPlan.validMultipartPlan, ← heq]
    simp only [Bool.and_eq_true, decide_eq_true_iff]
    exact ⟨⟨⟨⟨⟨hpos, hsize⟩, hmin⟩, hpart⟩, hmax⟩, trivial⟩

/-- A plan of the store as the worker would send it. -/
theorem UploadClaims.exists_wirePlan (h : c.validPartPlan = true)
    (hsize : c.sizeBytes ≤ maxUploadBytes) : ∃ r : WirePlan, r.claims c = c := by
  have hbounds : 0 ≤ c.sizeBytes ∧ 0 ≤ c.partCount ∧ c.partCount ≤ 10000 ∧
      0 ≤ c.partSizeBytes ∧ c.partSizeBytes ≤ 64 * 2 ^ 20 := by
    unfold validPartPlan maxUploadParts minUploadPartBytes maxUploadBytes at h
    split_ifs at h <;> simp only [Bool.and_eq_true, decide_eq_true_iff] at h <;> omega
  obtain ⟨hsize', hcount, hcount', hpart, hpart'⟩ := hbounds
  unfold maxUploadBytes at hsize
  refine ⟨⟨c.kind, .ofNat c.sizeBytes.toNat, .ofNat c.partCount.toNat,
    .ofNat c.partSizeBytes.toNat⟩, ?_⟩
  unfold WirePlan.claims
  rw [UInt64.toNat_ofNat', UInt64.toNat_ofNat', UInt32.toNat_ofNat',
    Nat.mod_eq_of_lt (by omega), Nat.mod_eq_of_lt (by omega), Nat.mod_eq_of_lt (by omega),
    Int.toNat_of_nonneg hsize', Int.toNat_of_nonneg hcount, Int.toNat_of_nonneg hpart]

/-! ## Tiling -/

namespace MultipartPlan

variable {u : MultipartPlan} {number : ℤ}

/-- The parts before the last are whole. -/
theorem start_succ_lt (hpart : 0 < u.partSize) {n : ℤ} (h : n < u.partCount) :
    u.start (n + 1) < u.size := by
  have hle : n ≤ (u.size - 1) / u.partSize := by
    unfold partCount at h
    omega
  have := (Int.le_ediv_iff_mul_le hpart).mp hle
  rw [start, add_sub_cancel_right]
  omega

/-- The last part ends where the object does. -/
theorem size_le_start_succ (hpart : 0 < u.partSize) : u.size ≤ u.start (u.partCount + 1) := by
  have := Int.lt_ediv_add_one_mul_self (u.size - 1) hpart
  rw [start, add_sub_cancel_right, partCount, add_comm]
  omega

theorem start_succ (u : MultipartPlan) (number : ℤ) :
    u.start (number + 1) = u.start number + u.partSize := by
  rw [start, start, add_sub_cancel_right, sub_mul, one_mul, sub_add_cancel]

end MultipartPlan

/-- **Plans agree and tile the object.** A plan the worker accepts is accepted
by the server, the store and the object store, with the same number of parts
and no overflow; a plan the store accepts, of an object that is small enough, is
one the worker accepts. With more than one part, exactly the parts from 1 to the
last are signed: the first begins at 0, each ends where the next begins and the
last where the object does, none is empty, and every one but the last has the
size declared, which is at least the minimum. -/
theorem part_plans_agree (c : UploadClaims) :
    (∀ r : WirePlan, r.validateCreate = true → r.createUpload = true ∧
      (r.claims c).validPartPlan = true ∧ (r.claims c).planned = true ∧
      (r.partCount ≠ 1 → (1 + (r.sizeBytes - 1) / r.partSizeBytes).toNat
        = 1 + (r.sizeBytes.toNat - 1) / r.partSizeBytes.toNat)) ∧
    (c.validPartPlan = true → c.sizeBytes ≤ maxUploadBytes →
      (∃ r : WirePlan, r.claims c = c ∧ r.validateCreate = true) ∧
      (1 < c.partCount → c.multipartPlan.start 1 = 0 ∧ ∀ number,
        (number < 1 ∨ c.partCount < number → c.multipartPlan.presignPart number = none) ∧
        (1 ≤ number → number ≤ c.partCount → ∃ bytes,
          c.multipartPlan.presignPart number = some bytes ∧ 0 < bytes ∧
          0 ≤ c.multipartPlan.start number ∧ c.multipartPlan.start number < 2 ^ 63 ∧
          c.multipartPlan.start number + bytes
            = (if number = c.partCount then c.sizeBytes else c.multipartPlan.start (number + 1)) ∧
          (number < c.partCount → bytes = c.partSizeBytes ∧ 5 * 2 ^ 20 ≤ bytes)))) := by
  refine ⟨fun r hr => ?_, fun h hsize => ⟨?_, fun hparts => ⟨?_, fun number => ⟨fun hout => ?_,
    fun hfirst hlast => ?_⟩⟩⟩⟩
  · have hplan := (r.validPartPlan_claims c).mp hr
    refine ⟨r.createUpload_eq.trans hr, hplan.1, UploadClaims.planned_of_validPartPlan hplan.1
      (Int.ofNat_le.mpr hplan.2), fun hcount => ?_⟩
    have hne : r.partCount.toNat ≠ 1 := fun heq => hcount (UInt32.toNat_inj.mp heq)
    have hwire := (r.validateCreate_iff.mp hr).2
    rw [if_neg hne] at hwire
    obtain ⟨-, -, -, hpos, hmin, -⟩ := hwire
    exact WirePlan.parts_toNat (UInt64.lt_iff_toNat_lt.mpr hpos)
      (UInt64.le_iff_toNat_le.mpr (le_trans (by decide) hmin))
  · obtain ⟨r, hr⟩ := c.exists_wirePlan h hsize
    refine ⟨r, hr, (r.validPartPlan_claims c).mpr ⟨hr.symm ▸ h, ?_⟩⟩
    have hbytes : (r.sizeBytes.toNat : ℤ) = c.sizeBytes := congrArg UploadClaims.sizeBytes hr
    exact Int.ofNat_le.mp (hbytes.trans_le hsize)
  · rw [MultipartPlan.start, sub_self, zero_mul]
  all_goals
    obtain ⟨hpos, hmin, -, -, heq⟩ := UploadClaims.validPartPlan_multipart h hparts.ne'
  · exact if_pos (.inr (heq ▸ hout))
  · have hpart : 0 < c.multipartPlan.partSize := lt_of_lt_of_le (by decide) hmin
    have hvalid : c.multipartPlan.validMultipartPlan = true := by
      have hplanned := UploadClaims.planned_of_validPartPlan h hsize
      rw [UploadClaims.planned, if_neg hparts.ne', Bool.and_eq_true] at hplanned
      exact hplanned.1
    have hbegin : c.multipartPlan.start number < c.sizeBytes := by
      have := MultipartPlan.start_succ_lt hpart (n := number - 1) (by omega)
      rwa [sub_add_cancel] at this
    have hnonneg : 0 ≤ c.multipartPlan.start number :=
      Int.mul_nonneg (by omega) hpart.le
    have hsigned : ¬ (c.multipartPlan.validMultipartPlan = false ∨ number < 1 ∨
        c.multipartPlan.partCount < number) := by
      rw [hvalid, ← heq]
      rintro (hinvalid | hbefore | hbeyond)
      · exact absurd hinvalid (by decide)
      · exact not_le.mpr hbefore hfirst
      · exact not_le.mpr hbeyond hlast
    refine ⟨_, if_neg hsigned, lt_min hpart (Int.sub_pos_of_lt hbegin), hnonneg,
      hbegin.trans (hsize.trans_lt (by decide)), ?_, fun hlt => ?_⟩
    · split_ifs with hend
      · -- The last part is what is left.
        have hover := MultipartPlan.size_le_start_succ hpart
        rw [← heq, ← hend, MultipartPlan.start_succ] at hover
        rw [min_eq_right (by omega)]
        exact add_sub_cancel _ _
      · have hwhole := MultipartPlan.start_succ_lt hpart (n := number) (by omega)
        rw [MultipartPlan.start_succ] at hwhole
        rw [min_eq_left (by omega), MultipartPlan.start_succ]
    · have hwhole := MultipartPlan.start_succ_lt hpart (n := number) (by omega)
      rw [MultipartPlan.start_succ] at hwhole
      rw [min_eq_left (by omega)]
      exact ⟨rfl, hmin⟩

/-- Twelve mebibytes in parts of five. -/
def Sample.plan : WirePlan := ⟨.output, 12582912, 3, 5242880⟩

/-- The worker's plan of three parts is accepted everywhere, and its last part,
which is signed, has what is left. -/
theorem sample_part_plans : ∃ c : UploadClaims, Sample.plan.validateCreate = true ∧
    Sample.plan.createUpload = true ∧ (Sample.plan.claims c).planned = true ∧
    ∃ bytes, (Sample.plan.claims c).multipartPlan.presignPart 3 = some bytes ∧
      (Sample.plan.claims c).multipartPlan.start 3 + bytes = 12582912 := by
  let c : UploadClaims := ⟨⟨1, 1, 1, 1, 1⟩, .output, "data", 1, "", 1, 0⟩
  have hvalid : Sample.plan.validateCreate = true := by decide +kernel
  obtain ⟨hserver, hstore, hplanned, -⟩ := (part_plans_agree c).1 Sample.plan hvalid
  have hcount : (Sample.plan.claims c).partCount = 3 := rfl
  have hsize : (Sample.plan.claims c).sizeBytes = 12582912 := rfl
  obtain ⟨-, hparts⟩ := (part_plans_agree (Sample.plan.claims c)).2 hstore (by rw [hsize]; decide)
  obtain ⟨-, hsigned⟩ := hparts (by rw [hcount]; decide)
  obtain ⟨bytes, hbytes, -, -, -, hend, -⟩ := (hsigned 3).2 (by decide) hcount.ge
  rw [if_pos hcount.symm, hsize] at hend
  exact ⟨c, hvalid, hserver, hplanned, bytes, hbytes, hend⟩

end Dispatch
