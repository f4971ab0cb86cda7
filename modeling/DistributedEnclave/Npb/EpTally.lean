import DistributedEnclave.CheckedInts
import DistributedEnclave.Npb.Kernels

/-! The counters of EP with the `int64_t` arithmetic of both sides: the worker counts the pairs
of a run into bins, the master adds up the replies it accepts. -/
namespace DistributedEnclave.Npb
open CheckedInts Outcome

structure EpReply where
  counts : Vector Int64 epBins
  sx : Binary64
  sy : Binary64

def EpReply.result (reply : EpReply) : EpResult where
  counts := reply.counts.toList.map Int64.toInt
  sx := reply.sx
  sy := reply.sy

theorem EpReply.bins (reply : EpReply) : reply.result.counts.length = epBins := by
  rw [result, List.length_map, Vector.length_toList]

section Master
variable (epN : Int)

/-- One bin of a reply: `worker_pairs` and the total of the bin. -/
def tallyBin (workerPairs count total : Int) : Checked (Int × Int) :=
  if count < 0 then .error .aborted
  else do
    let left ← int64 (epN-workerPairs)
    if count > left then .error .aborted
    else
      let workerPairs ← int64 (workerPairs+count)
      let total ← int64 (total+count)
      pure (workerPairs, total)

def tallyBins : Int → List Int → List Int → Checked (Int × List Int)
  | workerPairs, count :: counts, total :: totals => do
    let (workerPairs, total) ← tallyBin epN workerPairs count total
    let (workerPairs, totals) ← tallyBins workerPairs counts totals
    pure (workerPairs, total :: totals)
  | workerPairs, _, _ => pure (workerPairs, [])

def tallyReply (total wr : EpResult) : Checked EpResult := do
  let (workerPairs, counts) ← tallyBins epN 0 wr.counts total.counts
  if workerPairs ≠ epN ∨ !wr.sx.isfinite ∨ !wr.sy.isfinite then .error .aborted
  else pure { counts := counts, sx := total.sx+wr.sx, sy := total.sy+wr.sy }

def emptyResult : EpResult where
  counts := List.replicate epBins 0
  sx := 0
  sy := 0

/-- The gather loop of one run, over the replies in the order of the workers. -/
def tallyReplies (replies : List EpResult) : Checked EpResult :=
  replies.foldlM (tallyReply epN) emptyResult

end Master

section Worker

/-- `(int)x` of a double, which is defined only when an `int` holds the result. -/
def intOfDouble : Binary64 → Checked Int
  | .finite a => int (Binary64.truncate (.finite a))
  | _ => .error .overflow

def binOf (lmax : Binary64) : Checked Int := do
  let bin ← intOfDouble lmax
  pure (if bin ≥ epBins then epBins-1 else bin)

def epNorm (d : Binary64 × Binary64) : Binary64 :=
  if d.2.fabs.lt d.1.fabs then d.1.fabs else d.2.fabs

def countPair (result : EpResult) (d : Binary64 × Binary64) : Checked EpResult := do
  let bin ← binOf (epNorm d)
  let count ← load result.counts bin
  let count ← int64 (count+1)
  let counts ← store result.counts bin count
  pure { counts := counts, sx := result.sx+d.1, sy := result.sy+d.2 }

/-- The loop of `ep_compute` over pairs of deviates. -/
def countDeviates (deviates : List (Binary64 × Binary64)) : Checked EpResult :=
  deviates.foldlM countPair emptyResult

variable (libm : Libm)

def epDeviates : Nat → UInt64 → List (Binary64 × Binary64)
  | 0, _ => []
  | n+1, state =>
    boxMuller libm (npbUniform (npbRand state)) (npbUniform (npbRand (npbRand state))) ::
      epDeviates n (npbRand (npbRand state))

end Worker

section Totals
variable {epN : Int}

structure Totalled (epN : Int) (w : Nat) (total : EpResult) : Prop where
  bins : total.counts.length = epBins
  nonneg : ∀ count ∈ total.counts, 0 ≤ count
  sum : total.counts.sum = w*epN

theorem countPairs_eq_some {workerPairs pairs : Int} {counts : List Int}
    (h : countPairs epN workerPairs counts = some pairs) :
    (∀ count ∈ counts, 0 ≤ count) ∧ workerPairs+counts.sum = pairs := by
  induction counts generalizing workerPairs with
  | nil => simpa [countPairs] using h
  | cons count counts ih =>
    rw [countPairs] at h
    split at h
    · cases h
    rename_i hcount
    obtain ⟨hrest, hsum⟩ := ih h
    refine ⟨?_, by rw [List.sum_cons]; omega⟩
    intro c hc
    cases List.mem_cons.mp hc with
    | inl heq => omega
    | inr hmem => exact hrest c hmem

/-- The pairs of a reply are all there exactly when its counters say so. -/
theorem countPairs_all {counts : List Int} :
    countPairs epN 0 counts = some epN ↔ (∀ count ∈ counts, 0 ≤ count) ∧ counts.sum = epN := by
  constructor
  · intro h
    have := countPairs_eq_some h
    rwa [zero_add] at this
  · intro h
    obtain ⟨hnonneg, hsum⟩ := h
    rw [countPairs_eq hnonneg (by omega), zero_add, hsum]

/-- Nothing overflows in the loop over the bins as long as the totals leave room for what the
worker may still report. -/
theorem tallyBins_eq {workerPairs : Int} {counts totals : List Int}
    (hlen : counts.length = totals.length) (hpairs : 0 ≤ workerPairs) (hle : workerPairs ≤ epN)
    (hepN : epN ≤ maxInt64) (hnonneg : ∀ total ∈ totals, 0 ≤ total)
    (hroom : totals.sum+(epN-workerPairs) ≤ maxInt64) :
    tallyBins epN workerPairs counts totals =
      match countPairs epN workerPairs counts with
      | none => .error .aborted
      | some pairs => .ok (pairs, List.zipWith (· + ·) totals counts) := by
  induction counts generalizing workerPairs totals with
  | nil =>
    rw [List.eq_nil_of_length_eq_zero hlen.symm]
    rfl
  | cons count counts ih =>
    cases totals with
    | nil => cases hlen
    | cons total totals =>
      rw [List.sum_cons] at hroom
      have htotal := hnonneg total List.mem_cons_self
      have hrest : ∀ t ∈ totals, 0 ≤ t := fun t ht => hnonneg t (List.mem_cons_of_mem total ht)
      have hsum := List.sum_nonneg hrest
      have hleft : int64 (epN-workerPairs) = .ok (epN-workerPairs) :=
        int64_nonneg (by omega) (by omega)
      rw [tallyBins, tallyBin, countPairs]
      by_cases hneg : count < 0
      · rw [if_pos hneg, if_pos (Or.inl hneg)]
        rfl
      rw [if_neg hneg, hleft, ok_bind]
      by_cases hmany : count > epN-workerPairs
      · rw [if_pos hmany, if_pos (Or.inr hmany)]
        rfl
      have hworker : int64 (workerPairs+count) = .ok (workerPairs+count) :=
        int64_nonneg (by omega) (by omega)
      have hbin : int64 (total+count) = .ok (total+count) := int64_nonneg (by omega) (by omega)
      rw [if_neg hmany, if_neg (by omega), hworker, hbin]
      simp only [ok_bind, pure_eq_ok]
      rw [ih (Nat.succ.inj hlen) (by omega) (by omega) hrest (by omega)]
      cases countPairs epN (workerPairs+count) counts with
      | none => rfl
      | some pairs => rfl

/-- The loop that checks a reply is the check on the exact sum of its counters. -/
theorem tallyReply_eq {epN : Int64} {w : Nat} {total wr : EpResult}
    (h : Totalled epN.toInt w total) (hbins : wr.counts.length = epBins) (hepN : 0 ≤ epN.toInt)
    (hroom : (w+1)*epN.toInt ≤ maxInt64) :
    tallyReply epN.toInt total wr =
      if epValid epN wr then
        .ok ⟨List.zipWith (· + ·) total.counts wr.counts, total.sx+wr.sx, total.sy+wr.sy⟩
      else .error .aborted := by
  have hsum := h.sum
  have hpairs : 0 ≤ w*epN.toInt := by positivity
  rw [add_one_mul] at hroom
  rw [tallyReply, tallyBins_eq (by rw [hbins, h.bins]) le_rfl hepN (by omega) h.nonneg
    (by omega), epValid]
  cases hcount : countPairs epN.toInt 0 wr.counts with
  | none => simp
  | some pairs =>
    rw [ok_bind]
    by_cases hall : pairs = epN.toInt
    · cases hx : wr.sx.isfinite <;> cases hy : wr.sy.isfinite <;> simp [hall]
    · simp [hall]

theorem Totalled.reply {epN : Int64} {w : Nat} {total wr : EpResult}
    (h : Totalled epN.toInt w total) (hbins : wr.counts.length = epBins)
    (hvalid : epValid epN wr = true) :
    Totalled epN.toInt (w+1)
      ⟨List.zipWith (· + ·) total.counts wr.counts, total.sx+wr.sx, total.sy+wr.sy⟩ := by
  rw [epValid, Bool.and_eq_true, Bool.and_eq_true, decide_eq_true_eq, countPairs_all] at hvalid
  obtain ⟨⟨⟨hnonneg, hsum⟩, _⟩, _⟩ := hvalid
  have hlen : total.counts.length = wr.counts.length := by rw [h.bins, hbins]
  constructor
  · rw [List.length_zipWith, ← hlen, Nat.min_self]
    exact h.bins
  · intro count hc
    obtain ⟨i, hi, rfl⟩ := List.mem_iff_getElem.mp hc
    rw [List.length_zipWith] at hi
    rw [List.getElem_zipWith]
    have htotal := h.nonneg _ (List.getElem_mem (show i < total.counts.length by omega))
    have hcount := hnonneg _ (List.getElem_mem (show i < wr.counts.length by omega))
    omega
  · rw [← List.sum_add_sum_eq_sum_zipWith_of_length_eq _ _ hlen, h.sum, hsum, Nat.cast_succ,
      add_one_mul]

theorem totalled_empty (epN : Int) : Totalled epN 0 emptyResult where
  bins := rfl
  nonneg := fun _ hc => (List.eq_of_mem_replicate hc).ge
  sum := by rw [Nat.cast_zero, zero_mul]; rfl

/-- The loop over the replies either stops at one that does not add up or has added up all. -/
theorem tally_totalled {epN : Int64} {target w : Nat} {total : EpResult} {replies : List EpResult}
    (h : Totalled epN.toInt w total) (hbins : ∀ wr ∈ replies, wr.counts.length = epBins)
    (hepN : 0 ≤ epN.toInt) (hroom : target*epN.toInt ≤ maxInt64)
    (hlen : w+replies.length ≤ target) :
    replies.foldlM (tallyReply epN.toInt) total = .error .aborted ∨
      ∃ total', replies.foldlM (tallyReply epN.toInt) total = .ok total' ∧
        Totalled epN.toInt (w+replies.length) total' := by
  induction replies generalizing w total with
  | nil => exact .inr ⟨total, rfl, h⟩
  | cons wr replies ih =>
    rw [List.length_cons] at hlen ⊢
    have hwr := hbins wr List.mem_cons_self
    have hnext : ((w : Int)+1)*epN.toInt ≤ target*epN.toInt :=
      mul_le_mul_of_nonneg_right (by omega) hepN
    rw [List.foldlM_cons, tallyReply_eq h hwr hepN (hnext.trans hroom)]
    cases hvalid : epValid epN wr with
    | false => exact .inl rfl
    | true =>
      have hrest := ih (h.reply hwr hvalid) (fun r hr => hbins r (List.mem_cons_of_mem wr hr))
        (by omega)
      rwa [Nat.add_right_comm, Nat.add_assoc] at hrest

end Totals

theorem toInt_le_maxInt64 (n : Int64) : n.toInt ≤ maxInt64 := by
  have hle := n.toInt_le
  rwa [Int64.toInt_maxValue] at hle

section Counting
variable {libm : Libm}

def HeldByInt (d : Binary64 × Binary64) : Prop :=
  ∃ x y : ℚ, d = (.finite x, .finite y) ∧ |x| < 2^31 ∧ |y| < 2^31

theorem binOf_eq {d : Binary64 × Binary64} (hd : HeldByInt d) :
    binOf (epNorm d) = .ok (epBin d.1 d.2 : Int) := by
  obtain ⟨x, y, rfl, hx, hy⟩ := hd
  obtain ⟨a, ha, hnonneg, hlt⟩ : ∃ a, epNorm (.finite x, .finite y) = .finite a ∧ 0 ≤ a ∧
      a < 2^31 := by
    rw [epNorm]
    split
    · exact ⟨_, rfl, abs_nonneg x, hx⟩
    · exact ⟨_, rfl, abs_nonneg y, hy⟩
  have hfloor : (Binary64.finite a).truncate = ⌊a⌋ := if_neg (not_lt.mpr hnonneg)
  have hpos : 0 ≤ ⌊a⌋ := Int.floor_nonneg.mpr hnonneg
  have hmax : ⌊a⌋ < 2147483648 := by
    rw [Int.floor_lt]
    norm_num at hlt ⊢
    exact hlt
  have hint : int ⌊a⌋ = .ok ⌊a⌋ :=
    int_ok (by simp only [minInt]; omega) (by simp only [maxInt]; omega)
  change _ = Except.ok ((if (epNorm (.finite x, .finite y)).truncate ≥ epBins then epBins-1
    else (epNorm (.finite x, .finite y)).truncate.toNat : Nat) : Int)
  rw [binOf, ha, intOfDouble, hfloor, hint, ok_bind, pure_eq_ok]
  split
  · rfl
  · rw [Int.toNat_of_nonneg hpos]

structure Counted (i : Nat) (result : EpResult) : Prop where
  bins : result.counts.length = epBins
  nonneg : ∀ count ∈ result.counts, 0 ≤ count
  sum : result.counts.sum = i
  sx : result.sx.Within (2^84)
  sy : result.sy.Within (2^84)

theorem counted_empty : Counted 0 emptyResult :=
  have hzero : (0 : Binary64).Within (2^84) := ⟨0, rfl, by norm_num⟩
  ⟨rfl, fun _ hc => (List.eq_of_mem_replicate hc).ge, rfl, hzero, hzero⟩

theorem Counted.pair {i : Nat} {result : EpResult} {d : Binary64 × Binary64}
    (h : Counted i result) (hd : HeldByInt d) :
    Counted (i+1)
      ⟨result.counts.modify (epBin d.1 d.2) (· + 1), result.sx+d.1, result.sy+d.2⟩ := by
  have hbin := epBin_lt d.1 d.2
  obtain ⟨x, y, rfl, hx, hy⟩ := hd
  constructor
  · rw [List.length_modify]
    exact h.bins
  · exact nonneg_modify_succ h.nonneg
  · rw [sum_modify_succ (h.bins ▸ hbin), h.sum, Nat.cast_succ]
  · exact Binary64.add_saturates h.sx ⟨x, rfl, le_rfl⟩ (by norm_num) (by norm_num) hx
  · exact Binary64.add_saturates h.sy ⟨y, rfl, le_rfl⟩ (by norm_num) (by norm_num) hy

theorem countPair_eq {i : Nat} {result : EpResult} {d : Binary64 × Binary64}
    (h : Counted i result) (hd : HeldByInt d) (hi : (i : Int) < maxInt64) :
    countPair result d =
      .ok ⟨result.counts.modify (epBin d.1 d.2) (· + 1), result.sx+d.1, result.sy+d.2⟩ := by
  have hbin : epBin d.1 d.2 < result.counts.length := h.bins ▸ epBin_lt d.1 d.2
  have hget := List.getElem?_eq_getElem hbin
  have hmem := List.getElem_mem hbin
  generalize result.counts[epBin d.1 d.2] = count at hget hmem
  have hnonneg := h.nonneg count hmem
  have hle : count ≤ i := h.sum ▸ List.single_le_sum h.nonneg count hmem
  have hsucc : int64 (count+1) = .ok (count+1) := int64_nonneg (by omega) (by omega)
  have hset : result.counts.set (epBin d.1 d.2) (count+1) =
      result.counts.modify (epBin d.1 d.2) (· + 1) := by
    rw [List.modify_eq_set_getElem?, hget]
    rfl
  rw [countPair, binOf_eq hd, ok_bind, load_natCast hget, ok_bind, hsucc, ok_bind, store,
    if_pos ⟨by omega, by omega⟩, Int.toNat_natCast, hset, ok_bind, pure_eq_ok]

/-- The worker's loop goes through without an overflow and counts every pair once. -/
theorem countDeviates_counted {i : Nat} {result : EpResult}
    {deviates : List (Binary64 × Binary64)} (h : Counted i result)
    (hd : ∀ d ∈ deviates, HeldByInt d) (hlen : ((i+deviates.length : Nat) : Int) ≤ maxInt64) :
    ∃ result', deviates.foldlM countPair result = .ok result' ∧
      Counted (i+deviates.length) result' := by
  induction deviates generalizing i result with
  | nil => exact ⟨result, rfl, h⟩
  | cons d deviates ih =>
    rw [List.length_cons] at hlen ⊢
    have hfirst := hd d List.mem_cons_self
    obtain ⟨result', hresult, hcounted⟩ := ih (h.pair hfirst)
      (fun e he => hd e (List.mem_cons_of_mem d he)) (by omega)
    refine ⟨result', ?_, ?_⟩
    · rw [List.foldlM_cons, countPair_eq h hfirst (by omega), ok_bind]
      exact hresult
    · rwa [Nat.add_right_comm, Nat.add_assoc] at hcounted

/-- The deviates of the generator are small. -/
theorem boxMuller_held (state : UInt64) : HeldByInt
    (boxMuller libm (npbUniform (npbRand state)) (npbUniform (npbRand (npbRand state)))) := by
  obtain ⟨u1, hu1, _, hu1le⟩ := npbUniform_range state
  obtain ⟨u2, hu2, hu20, hu2le⟩ := npbUniform_range (npbRand state)
  rw [hu1, hu2]
  have hwithin : (boxMuller libm (.finite u1) (.finite u2)).1.Within (9 : Nat) ∧
      (boxMuller libm (.finite u1) (.finite u2)).2.Within (9 : Nat) :=
    boxMuller_within hu1le (by rwa [abs_of_nonneg hu20])
  obtain ⟨⟨x, hx, hxle⟩, ⟨y, hy, hyle⟩⟩ := hwithin
  have hsmall : ((9 : Nat) : ℚ) < 2^31 := by norm_num
  exact ⟨x, y, Prod.ext hx hy, hxle.trans_lt hsmall, hyle.trans_lt hsmall⟩

theorem epDeviates_held {n : Nat} {state : UInt64} :
    ∀ d ∈ epDeviates libm n state, HeldByInt d := by
  induction n generalizing state with
  | zero => exact fun d hd => nomatch hd
  | succ n ih =>
    intro d hd
    rw [epDeviates] at hd
    cases List.mem_cons.mp hd with
    | inl heq => exact heq ▸ boxMuller_held state
    | inr hmem => exact ih d hmem

theorem countDeviates_epDeviates {n i : Nat} {state : UInt64} {result : EpResult}
    (h : Counted i result) (hlen : ((i+n : Nat) : Int) ≤ maxInt64) :
    (epDeviates libm n state).foldlM countPair result =
      .ok ((epPair libm)^[n] (state, result)).2 := by
  induction n generalizing i state result with
  | zero => rfl
  | succ n ih =>
    rw [epDeviates, List.foldlM_cons, countPair_eq h (boxMuller_held state) (by omega), ok_bind,
      ih (h.pair (boxMuller_held state)) (by omega), Function.iterate_succ_apply]
    rfl

/-- The checked loop computes what `ep_compute` does. -/
theorem countDeviates_eq (pairs seed : Int64) (hpairs : 0 ≤ pairs.toInt) :
    countDeviates (epDeviates libm pairs.toInt.toNat (epStart seed)) =
      .ok (epCompute libm pairs seed) := by
  refine countDeviates_epDeviates counted_empty ?_
  rw [Nat.zero_add, Int.toNat_of_nonneg hpairs]
  exact toInt_le_maxInt64 pairs

/-- The counters of the worker are sent as they are. -/
theorem Counted.reply {i : Nat} {result : EpResult} (h : Counted i result)
    (hi : (i : Int) ≤ maxInt64) : ∃ reply : EpReply, reply.result = result := by
  have hcounts : (result.counts.map Int64.ofInt).map Int64.toInt = result.counts := by
    rw [List.map_map]
    refine (List.map_congr_left fun count hc => ?_).trans (List.map_id _)
    have hnonneg := h.nonneg count hc
    have hle : count ≤ i := h.sum ▸ List.single_le_sum h.nonneg count hc
    simp only [maxInt64] at hi
    exact Int64.toInt_ofInt_of_le (by omega) (by omega)
  refine ⟨⟨⟨(result.counts.map Int64.ofInt).toArray, ?_⟩, result.sx, result.sy⟩, ?_⟩
  · rw [List.size_toArray, List.length_map, h.bins]
  · rw [EpReply.result]
    change EpResult.mk ((result.counts.map Int64.ofInt).map Int64.toInt) _ _ = result
    rw [hcounts]

theorem Counted.valid {epN : Int64} {result : EpResult} (h : Counted epN.toInt.toNat result)
    (hepN : 0 ≤ epN.toInt) : epValid epN result = true := by
  have hsum : result.counts.sum = epN.toInt := by rw [h.sum, Int.toNat_of_nonneg hepN]
  have hall := countPairs_all.mpr ⟨h.nonneg, hsum⟩
  rw [epValid, hall, h.sx.isfinite, h.sy.isfinite]
  simp

end Counting

/-- A pair far from the origin has no bin: an `int` does not hold its norm. -/
theorem large_norm_overflows :
    epNorm (.finite (2^31), .finite 0) = .finite (2^31) ∧
      binOf (.finite (2^31)) = .error .overflow ∧
      countDeviates [(.finite (2^31), .finite 0)] = .error .overflow := by
  have hnorm : epNorm (.finite (2^31), .finite 0) = .finite (2^31) := by
    have hlt : (Binary64.finite 0).fabs.lt (Binary64.finite (2^31)).fabs = true := by
      simp [Binary64.fabs, Binary64.lt]
    rw [epNorm, if_pos hlt, Binary64.fabs, abs_of_nonneg (by norm_num)]
  have hbin : binOf (.finite (2^31)) = .error .overflow := by
    have hfloor : (Binary64.finite (2^31)).truncate = 2147483648 := by
      rw [Binary64.truncate, if_neg (by norm_num)]
      norm_num
    rw [binOf, intOfDouble, hfloor]
    rfl
  refine ⟨hnorm, hbin, ?_⟩
  rw [countDeviates, List.foldlM_cons, countPair, hnorm, hbin]
  rfl

section Run
variable {target : Nat} {epN : Int64}

theorem bins_of_replies (replies : List EpReply) :
    ∀ wr ∈ replies.map EpReply.result, wr.counts.length = epBins := by
  intro wr hwr
  obtain ⟨reply, _, rfl⟩ := List.mem_map.mp hwr
  exact reply.bins

theorem tallyReplies_totalled {replies : List EpReply} (hepN : 0 ≤ epN.toInt)
    (hroom : target*epN.toInt ≤ maxInt64) (hlen : replies.length ≤ target) :
    tallyReplies epN.toInt (replies.map EpReply.result) = .error .aborted ∨
      ∃ total, tallyReplies epN.toInt (replies.map EpReply.result) = .ok total ∧
        Totalled epN.toInt replies.length total := by
  have hmap : 0+(replies.map EpReply.result).length ≤ target := by
    rwa [Nat.zero_add, List.length_map]
  have htotalled := tally_totalled (totalled_empty epN.toInt) (bins_of_replies replies) hepN hroom
    hmap
  rwa [Nat.zero_add, List.length_map] at htotalled

/-- After the replies that have been accepted the next one is weighed by its exact sum. -/
theorem tallyReply_next {replies : List EpReply} {total : EpResult} (hepN : 0 ≤ epN.toInt)
    (hroom : target*epN.toInt ≤ maxInt64) (hlen : replies.length < target)
    (htally : tallyReplies epN.toInt (replies.map EpReply.result) = .ok total) (reply : EpReply) :
    (∃ total', tallyReply epN.toInt total reply.result = .ok total') ↔
      epValid epN reply.result = true := by
  have hnext : ((replies.length : Int)+1)*epN.toInt ≤ target*epN.toInt :=
    mul_le_mul_of_nonneg_right (by omega) hepN
  rcases tallyReplies_totalled hepN hroom hlen.le with habort | ⟨total', htally', htotalled⟩
  · rw [habort] at htally
    cases htally
  · rw [htally'] at htally
    cases htally
    rw [tallyReply_eq htotalled reply.bins hepN (hnext.trans hroom)]
    constructor
    · intro h
      obtain ⟨total', h⟩ := h
      by_contra hvalid
      rw [if_neg hvalid] at h
      cases h
    · exact fun hvalid => ⟨_, if_pos hvalid⟩

theorem binOf_range {d : Binary64 × Binary64} (hd : HeldByInt d) :
    ∃ bin : Int, binOf (epNorm d) = .ok bin ∧ 0 ≤ bin ∧ bin ≤ 9 := by
  have hbin := epBin_lt d.1 d.2
  simp only [epBins] at hbin
  exact ⟨_, binOf_eq hd, by omega, by omega⟩

/-- What a worker counts is a reply that passes the checks. -/
theorem countDeviates_valid {deviates : List (Binary64 × Binary64)} (hepN : 0 ≤ epN.toInt)
    (hlen : deviates.length = epN.toInt.toNat) (hheld : ∀ d ∈ deviates, HeldByInt d) :
    ∃ reply : EpReply, countDeviates deviates = .ok reply.result ∧
      epValid epN reply.result = true := by
  have hcount : ((0+deviates.length : Nat) : Int) ≤ maxInt64 := by
    rw [Nat.zero_add, hlen, Int.toNat_of_nonneg hepN]
    exact toInt_le_maxInt64 epN
  obtain ⟨result, hresult, hcounted⟩ := countDeviates_counted counted_empty hheld hcount
  obtain ⟨reply, rfl⟩ := hcounted.reply hcount
  rw [Nat.zero_add, hlen] at hcounted
  exact ⟨reply, hresult, hcounted.valid hepN⟩

/-- Replies are accepted exactly when they account for every pair, no counter overflows, and a
worker's own replies are accepted. -/
theorem ep_pairs_accounted {target : Nat} {epN : Int64} (htarget : 0 < target)
    (hmin : 1 ≤ epN.toInt) (hmax : epN.toInt ≤ maxInt64/target) :
    (∀ replies : List EpReply, replies.length ≤ target →
      tallyReplies epN.toInt (replies.map EpReply.result) = .error .aborted ∨
        ∃ total, tallyReplies epN.toInt (replies.map EpReply.result) = .ok total) ∧
    (∀ (replies : List EpReply) (reply : EpReply) (total : EpResult), replies.length < target →
      tallyReplies epN.toInt (replies.map EpReply.result) = .ok total →
      reply.sx.isfinite = true → reply.sy.isfinite = true →
      ((∃ total', tallyReply epN.toInt total reply.result = .ok total') ↔
        (∀ count ∈ reply.counts.toList, 0 ≤ count.toInt) ∧
          (reply.counts.toList.map Int64.toInt).sum = epN.toInt)) ∧
    (∀ deviates : List (Binary64 × Binary64), deviates.length = epN.toInt.toNat →
      (∀ d ∈ deviates, HeldByInt d) →
      (∀ d ∈ deviates, ∃ bin : Int, binOf (epNorm d) = .ok bin ∧ 0 ≤ bin ∧ bin ≤ 9) ∧
      ∃ reply : EpReply, countDeviates deviates = .ok reply.result ∧
        ∀ (replies : List EpReply) (total : EpResult), replies.length < target →
          tallyReplies epN.toInt (replies.map EpReply.result) = .ok total →
          ∃ total', tallyReply epN.toInt total reply.result = .ok total') ∧
    ∀ (libm : Libm) (seed : Int64),
      (∀ d ∈ epDeviates libm epN.toInt.toNat (epStart seed), HeldByInt d) ∧
        countDeviates (epDeviates libm epN.toInt.toNat (epStart seed)) =
          .ok (epCompute libm epN seed) := by
  have hroom : target*epN.toInt ≤ maxInt64 := by
    rw [mul_comm]
    exact Int.mul_le_of_le_ediv (by omega) hmax
  have hepN : 0 ≤ epN.toInt := by omega
  refine ⟨?_, ?_, ?_, ?_⟩
  · intro replies hlen
    exact (tallyReplies_totalled hepN hroom hlen).imp_right fun ⟨total, h, _⟩ => ⟨total, h⟩
  · intro replies reply total hlen htally hx hy
    have hcounts : (∀ count ∈ reply.result.counts, 0 ≤ count) ↔
        ∀ count ∈ reply.counts.toList, 0 ≤ count.toInt := List.forall_mem_map
    rw [tallyReply_next hepN hroom hlen htally, epValid, Bool.and_eq_true, Bool.and_eq_true,
      decide_eq_true_eq, countPairs_all, hcounts]
    exact ⟨fun h => h.1.1, fun h => ⟨⟨h, hx⟩, hy⟩⟩
  · intro deviates hlen hheld
    refine ⟨fun d hd => binOf_range (hheld d hd), ?_⟩
    obtain ⟨reply, hreply, hvalid⟩ := countDeviates_valid hepN hlen hheld
    refine ⟨reply, hreply, ?_⟩
    intro replies total hreplies htally
    exact (tallyReply_next hepN hroom hreplies htally reply).mpr hvalid
  · intro libm seed
    exact ⟨epDeviates_held, countDeviates_eq epN seed hepN⟩

/-- A first reply of three pairs in two bins is accepted. -/
theorem ep_pairs_accounted_three :
    ∃ total, tallyReply (3 : Int64).toInt emptyResult
      (EpReply.result ⟨#v[1, 2, 0, 0, 0, 0, 0, 0, 0, 0], 0, 0⟩) = .ok total :=
  ((ep_pairs_accounted (by decide : 0 < 2) (by decide) (by decide)).2.1 []
    ⟨#v[1, 2, 0, 0, 0, 0, 0, 0, 0, 0], 0, 0⟩ emptyResult (by decide) rfl rfl rfl).mpr
    ⟨fun count hcount => of_decide_eq_true (List.all_eq_true.mp
      (by decide : (#v[1, 2, 0, 0, 0, 0, 0, 0, 0, 0] : Vector Int64 epBins).toList.all
        (fun count => decide (0 ≤ count.toInt)) = true) count hcount), by decide⟩

end Run

end DistributedEnclave.Npb
