import Mathlib.Data.List.Pairwise
import DistributedEnclave.Attest.Hostile

/-! Tags under an active network. A tag is not protected, so a message may arrive under
another one; what follows holds while no message is passed off as another that way. -/
namespace DistributedEnclave.Attest
open DistributedEnclave.Octets DistributedEnclave.Cluster DistributedEnclave.Streams
  DistributedEnclave.Transition

theorem loadWord_storeWord (x : UInt32) : loadWord (storeWord x) = x := by
  rw [loadWord, storeWord, List.reverse_reverse, beDecode_beEncode_of_lt x.toNat_lt]
  exact UInt32.ofNat_toNat

theorem storeWord_loadWord {b : Bytes} (h : b.length = 4) : storeWord (loadWord b) = b := by
  have hlt : beDecode b.reverse < 2^32 := by
    have := beDecode_lt b.reverse
    rwa [List.length_reverse, h] at this
  rw [loadWord, storeWord, UInt32.toNat_ofNat_of_lt' hlt]
  have := beEncode_beDecode b.reverse
  rw [List.length_reverse, h] at this
  rw [this, List.reverse_reverse]

/-- The worker does what the tag says: it computes, or the word of a control message fits. -/
def Event.Acts (e : Event) : Prop :=
  e.tag = tagTask ∨ sentinel e.tag = some (loadWord e.plaintext)

/-- What has happened before an event: the same message was sent at the other end under the
same tag, and a result belongs to a task that the master has sent. -/
def Genuine (before : List Event) (e : Event) : Prop :=
  match e.act with
  | .masterSends => True
  | .workerAccepts => e.Acts → { e with act := .masterSends } ∈ before
  | .masterAccepts => { e with act := .workerSends } ∈ before
  | .workerSends => ∃ x w, ⟨.masterSends, e.worker, tagTask, storeWord x.toUInt32, w⟩ ∈ before ∧
      e.plaintext = resultPair x

def expected (i : Nat) (trace : List Event) : Nat :=
  match (messages .workerAccepts i trace).getLast? with
  | none => 0
  | some m => (nonceCounter m.2+1)%2^64

theorem expected_concat (i : Nat) (trace : List Event) (e : Event) : expected i (trace ++ [e]) =
    if e.act = .workerAccepts ∧ e.worker = i then (nonceCounter e.wire+1)%2^64
    else expected i trace := by
  rw [expected, messages_concat]
  by_cases h : e.act = .workerAccepts ∧ e.worker = i
  · rw [if_pos h, if_pos h, List.getLast?_concat]
  · rw [if_neg h, if_neg h, expected]

/-- The octets of a message sent under one tag arrive under another that the worker acts on,
and are not stale: any message as a task, or a task with the word of a control message as that
message. -/
def PassesOff (trace : List Event) (i : Nat) (tag : Int32) (buf : Bytes) : Prop :=
  expected i trace ≤ nonceCounter buf ∧
  ∃ e ∈ trace, e.act = .masterSends ∧ e.worker = i ∧ e.wire = buf ∧ e.tag ≠ tag ∧
    (tag = tagTask ∨ e.tag = tagTask ∧ sentinel tag = some (loadWord e.plaintext))

theorem sentinel_some {tag : Int32} {m : UInt32} (h : sentinel tag = some m) :
    (tag = tagShutdown ∧ m = ctrlMagicShutdown) ∨ (tag = tagIdle ∧ m = ctrlMagicIdle) := by
  rw [sentinel] at h
  split at h
  · rename_i htag
    cases h
    exact .inl ⟨htag, rfl⟩
  split at h
  · rename_i htag
    cases h
    exact .inr ⟨htag, rfl⟩
  · cases h

theorem sentinel_inj {t t' : Int32} {m : UInt32} (h : sentinel t = some m)
    (h' : sentinel t' = some m) : t = t' := by
  cases sentinel_some h with
  | inl hs =>
    cases sentinel_some h' with
    | inl hs' => exact hs.1.trans hs'.1.symm
    | inr hs' => exact absurd (hs.2.symm.trans hs'.2) (by decide)
  | inr hs =>
    cases sentinel_some h' with
    | inl hs' => exact absurd (hs.2.symm.trans hs'.2) (by decide)
    | inr hs' => exact hs.1.trans hs'.1.symm

section
variable {S : Sodium Bytes} {nworkers : Nat} {K : FreshSecrets S nworkers}
  {encrypt : Bytes → Bytes → Bytes → Bytes} {tasks : List Int32}

def Logged (K : FreshSecrets S nworkers) (trace : List Event) (r : Record) : Prop :=
  (∃ i < nworkers, ∃ tag, r.key = wkey K.toSecrets i ∧
    ⟨.masterSends, i, tag, r.plain, r.nonce ++ r.cipher⟩ ∈ trace) ∨
  ∃ i < nworkers, r.key = sessionKey K.toSecrets i ∧
    ⟨.workerSends, i, tagResult, r.plain, r.nonce ++ r.cipher⟩ ∈ trace

theorem Logged.mono {trace : List Event} {r : Record} (h : Logged K trace r)
    (events : List Event) : Logged K (trace ++ events) r := by
  cases h with
  | inl h =>
    obtain ⟨i, hi, tag, hkey, hmem⟩ := h
    exact .inl ⟨i, hi, tag, hkey, List.mem_append_left _ hmem⟩
  | inr h =>
    obtain ⟨i, hi, hkey, hmem⟩ := h
    exact .inr ⟨i, hi, hkey, List.mem_append_left _ hmem⟩

def Counted (s : State) (trace : List Event) : Prop :=
  ∀ i, (s.workers i).recvNonceCtr = expected i trace

theorem Counted.event {s s' : State} {trace : List Event} (h : Counted s trace) {e : Event}
    (hctr : ∀ i, (s'.workers i).recvNonceCtr =
      if e.act = .workerAccepts ∧ e.worker = i then (nonceCounter e.wire+1)%2^64
      else (s.workers i).recvNonceCtr) : Counted s' (trace ++ [e]) := by
  intro i
  rw [hctr, expected_concat, h]

theorem Counted.other {s s' : State} {trace : List Event} (h : Counted s trace) {e : Event}
    (hact : e.act ≠ .workerAccepts)
    (hctr : ∀ i, (s'.workers i).recvNonceCtr = (s.workers i).recvNonceCtr) :
    Counted s' (trace ++ [e]) := by
  refine h.event fun i => ?_
  rw [if_neg fun hc => hact hc.1]
  exact hctr i

theorem Counted.accepts {s : State} {trace : List Event} (h : Counted s trace) {i next : Nat}
    {tag : Int32} {p buf : Bytes} (hnext : next = (nonceCounter buf+1)%2^64) :
    Counted (acceptCounter s i next) (trace ++ [⟨.workerAccepts, i, tag, p, buf⟩]) := by
  refine h.event fun j => ?_
  rw [acceptCounter, workers_update s i _ (·.recvNonceCtr), hnext]
  simp only [true_and]

theorem Counted.stop {s : State} {trace : List Event} (h : Counted s trace) (i : Nat) :
    Counted (stopWorker s i) trace :=
  fun j => (stopWorker_recvNonceCtr s i j).trans (h j)

theorem Counted.kept {allowed : List Event → Nat → Int32 → Bytes → Prop} :
    Kept K.toSecrets encrypt nworkers allowed Counted where
  same := fun h _ _ _ hworkers i => by
    rw [hworkers]
    exact h i
  masterSend := fun _ _ _ h => h.other Act.noConfusion fun _ => rfl
  masterAccept := fun _ _ h => h.other Act.noConfusion fun _ => rfl
  workerAccept := fun _ hrecv _ h => h.accepts (secureRecv_ok hrecv).2.1
  workerSend := fun _ _ _ h => h.other Act.noConfusion (workerSend_recvNonceCtr _ _ _)
  stop := fun i h => h.stop i

structure Tagged (K : FreshSecrets S nworkers) (s : State) (trace : List Event) : Prop where
  records : ∀ r ∈ s.log, Logged K trace r
  words : ∀ e ∈ trace, e.act = .masterSends → e.IsWord
  pairs : ∀ e ∈ trace, e.act = .workerSends → e.plaintext.length = 8
  counters : Counted s trace
  genuine : Justified Genuine trace

theorem Tagged.event {s s' : State} {trace : List Event} (h : Tagged K s trace) {e : Event}
    (hlog : ∀ r ∈ s'.log, r ∈ s.log ∨ Logged K (trace ++ [e]) r)
    (hword : e.act = .masterSends → e.IsWord)
    (hpair : e.act = .workerSends → e.plaintext.length = 8)
    (hctr : Counted s' (trace ++ [e])) (hgenuine : Genuine trace e) :
    Tagged K s' (trace ++ [e]) := by
  refine ⟨?_, ?_, ?_, hctr, h.genuine.concat hgenuine⟩
  · intro r hr
    cases hlog r hr with
    | inl hr => exact (h.records r hr).mono _
    | inr hr => exact hr
  · intro x hx
    cases List.mem_append.mp hx with
    | inl hx => exact h.words x hx
    | inr hx =>
      obtain rfl := List.mem_singleton.mp hx
      exact hword
  · intro x hx
    cases List.mem_append.mp hx with
    | inl hx => exact h.pairs x hx
    | inr hx =>
      obtain rfl := List.mem_singleton.mp hx
      exact hpair

theorem Tagged.masterSend {s : State} {trace : List Event} (h : Tagged K s trace) {i : Nat}
    (hi : i < nworkers) (m : Int32 × Bytes) (hword : (sendEvent K.toSecrets encrypt s i m).IsWord) :
    Tagged K (masterSend K.toSecrets encrypt s i m.1 m.2)
      (trace ++ [sendEvent K.toSecrets encrypt s i m]) := by
  refine h.event ?_ (fun _ => hword) (fun hact => nomatch hact)
    (h.counters.other Act.noConfusion fun _ => rfl) trivial
  intro r hr
  cases List.mem_append.mp hr with
  | inl hr => exact .inl hr
  | inr hr =>
    obtain rfl := List.mem_singleton.mp hr
    exact .inr (.inl ⟨i, hi, m.1, rfl, List.mem_append_right _ (List.mem_singleton.mpr rfl)⟩)

theorem Tagged.masterAccept {s : State} {trace : List Event} (h : Tagged K s trace)
    {i next : Nat} {buf p : Bytes} (hi : i < nworkers)
    (hrecv : secureRecv s.log (wkey K.toSecrets i) (s.recvNonceCtr i) 8 buf = some (p, next)) :
    Tagged K s (trace ++ [⟨.masterAccepts, i, tagResult, p, buf⟩]) := by
  obtain ⟨_, _, hlen, r, hr, hkey, rfl, rfl⟩ := secureRecv_ok hrecv
  refine h.event (fun r hr => .inl hr) (fun hact => nomatch hact) (fun hact => nomatch hact)
    (h.counters.other Act.noConfusion fun _ => rfl) ?_
  cases h.records r hr with
  | inl hword =>
    obtain ⟨j, _, tag, _, hmem⟩ := hword
    have hfour : r.plain.length = 4 := (h.words _ hmem rfl).1
    omega
  | inr hpair =>
    obtain ⟨j, hj, hkey', hmem⟩ := hpair
    obtain rfl := K.fresh j hj i hi
      ((sessionKey_eq K.toSecrets j).symm.trans (hkey'.symm.trans hkey))
    exact hmem

/-- What a worker acts on was sent to it under the same tag, if it is not passed off. -/
theorem Tagged.sent {s : State} {trace : List Event} (h : Tagged K s trace) {i next : Nat}
    {buf p : Bytes} {tag : Int32} (hi : i < nworkers)
    (hrecv : secureRecv s.log (sessionKey K.toSecrets i) (s.workers i).recvNonceCtr 4 buf =
      some (p, next))
    (hcareful : ¬PassesOff trace i tag buf) {a : Act} (hacts : Event.Acts ⟨a, i, tag, p, buf⟩) :
    ⟨.masterSends, i, tag, p, buf⟩ ∈ trace := by
  obtain ⟨hfresh, _, hlen, r, hr, hkey, rfl, rfl⟩ := secureRecv_ok hrecv
  cases h.records r hr with
  | inr hpair =>
    obtain ⟨j, _, _, hmem⟩ := hpair
    have height : r.plain.length = 8 := h.pairs _ hmem rfl
    omega
  | inl hword =>
    obtain ⟨j, hj, t, hkey', hmem⟩ := hword
    obtain rfl := K.fresh j hj i hi (hkey'.symm.trans (hkey.trans (sessionKey_eq K.toSecrets i)))
    by_cases htag : t = tag
    · rwa [← htag]
    -- under another tag it would be passed off, or be a control word of that other tag
    refine absurd ⟨h.counters j ▸ hfresh, _, hmem, rfl, rfl, rfl, htag, ?_⟩ hcareful
    cases hacts with
    | inl htask => exact .inl htask
    | inr hsentinel =>
      cases (h.words _ hmem rfl).2 with
      | inl htask => exact .inr ⟨htask, hsentinel⟩
      | inr hctrl =>
        obtain ⟨m, hm, hp⟩ := hctrl
        have hload : loadWord r.plain = m := (congrArg loadWord hp).trans (loadWord_storeWord m)
        exact absurd (sentinel_inj (hm.trans (congrArg some hload.symm)) hsentinel) htag

theorem Tagged.workerAccept {s : State} {trace : List Event} (h : Tagged K s trace)
    {i next : Nat} {buf p : Bytes} {tag : Int32} (hi : i < nworkers)
    (hrecv : secureRecv s.log (sessionKey K.toSecrets i) (s.workers i).recvNonceCtr 4 buf =
      some (p, next))
    (hcareful : ¬PassesOff trace i tag buf) :
    Tagged K (acceptCounter s i next) (trace ++ [⟨.workerAccepts, i, tag, p, buf⟩]) :=
  h.event (fun _ hr => .inl hr) (fun hact => nomatch hact) (fun hact => nomatch hact)
    (h.counters.accepts (secureRecv_ok hrecv).2.1)
    fun hacts => h.sent hi hrecv hcareful hacts

theorem Tagged.workerSend {s : State} {trace : List Event} (h : Tagged K s trace) {i : Nat}
    (hi : i < nworkers) (x : Int32) {w : Bytes}
    (htask : ⟨.masterSends, i, tagTask, storeWord x.toUInt32, w⟩ ∈ trace) :
    Tagged K (workerSend K.toSecrets encrypt s i (resultPair x)) (trace ++ [⟨.workerSends, i,
      tagResult, resultPair x,
      wire encrypt (sessionKey K.toSecrets i) (s.workers i).sendNonceCtr (resultPair x)⟩]) := by
  refine h.event ?_ (fun hact => nomatch hact) (fun _ => resultPair_length x)
    (h.counters.other Act.noConfusion (workerSend_recvNonceCtr s i (resultPair x)))
    ⟨x, w, htask, rfl⟩
  intro r hr
  cases List.mem_append.mp hr with
  | inl hr => exact .inl hr
  | inr hr =>
    obtain rfl := List.mem_singleton.mp hr
    exact .inr (.inr ⟨i, hi, rfl, List.mem_append_right _ (List.mem_singleton.mpr rfl)⟩)

/-- A task that a worker has accepted was sent as a task. -/
theorem Tagged.task_sent {s : State} {trace : List Event} (h : Tagged K s trace) {i : Nat}
    {word buf : Bytes} (hmem : ⟨.workerAccepts, i, tagTask, word, buf⟩ ∈ trace) :
    ⟨.masterSends, i, tagTask, word, buf⟩ ∈ trace := by
  obtain ⟨before, after, rfl⟩ := List.append_of_mem hmem
  have hsent := h.genuine before _ after rfl
  exact List.mem_append_left _ (hsent (.inl rfl))

def Careful (trace : List Event) (i : Nat) (tag : Int32) (buf : Bytes) : Prop :=
  ¬PassesOff trace i tag buf

theorem Tagged.kept : Kept K.toSecrets encrypt nworkers Careful (Tagged K) where
  same := by
    intro s s' trace h hlog _ _ hworkers
    exact ⟨by rw [hlog]; exact h.records, h.words, h.pairs,
      by rw [Counted, hworkers]; exact h.counters, h.genuine⟩
  masterSend := fun m hi hword h => h.masterSend hi m hword
  masterAccept := fun hi hrecv h => by
    obtain ⟨hrecords, hwords, hpairs, hcounters, hgenuine⟩ := h.masterAccept hi hrecv
    exact ⟨hrecords, hwords, hpairs, hcounters, hgenuine⟩
  workerAccept := fun hi hrecv hcareful h => h.workerAccept hi hrecv hcareful
  workerSend := by
    intro s trace i word buf hi hlen hmem h
    refine h.workerSend hi (loadWord word).toInt32 (w := buf) ?_
    rw [UInt32.toUInt32_toInt32, storeWord_loadWord hlen]
    exact h.task_sent hmem
  stop := fun i h => ⟨h.records, h.words, h.pairs, h.counters.stop i, h.genuine⟩

/-- While no message is passed off as another, everything an end acts on was sent by the other
end under the same tag, and every result belongs to a task of the master. -/
theorem careful_run_genuine {s : State} {trace : List Event}
    (h : NetRun K.toSecrets encrypt nworkers tasks Careful (s, trace)) :
    Justified Genuine trace :=
  (Tagged.kept.run ⟨by simp [initial], by simp, by simp, fun _ => rfl, .nil⟩ h).genuine

def Apart (e e' : Event) : Prop :=
  e.act = .masterSends → e'.act = .masterSends → e.worker = e'.worker → e.wire ≠ e'.wire

instance : Std.Symm Apart := ⟨fun _ _ h hact hact' hworker => (h hact' hact hworker.symm).symm⟩

structure Posted (K : FreshSecrets S nworkers) (encrypt : Bytes → Bytes → Bytes → Bytes) (s : State)
    (trace : List Event) : Prop where
  sealed : ∀ r ∈ s.log, r = ⟨r.key, r.nonce, [], r.plain, encrypt r.key r.nonce r.plain⟩
  logged : ∀ e ∈ trace, e.act = .masterSends → ∃ c < s.sendNonceCtr e.worker,
    sealRecord encrypt (wkey K.toSecrets e.worker) c e.plaintext ∈ s.log ∧
      e.wire = wire encrypt (wkey K.toSecrets e.worker) c e.plaintext
  distinct : trace.Pairwise Apart

/-- An event that is no send of the master. -/
theorem Posted.other {s s' : State} {trace : List Event} (h : Posted K encrypt s trace) {e : Event}
    (hact : e.act ≠ .masterSends) (hctr : s'.sendNonceCtr = s.sendNonceCtr)
    (hlog : ∀ r ∈ s.log, r ∈ s'.log)
    (hsealed : ∀ r ∈ s'.log, r = ⟨r.key, r.nonce, [], r.plain, encrypt r.key r.nonce r.plain⟩) :
    Posted K encrypt s' (trace ++ [e]) := by
  refine ⟨hsealed, ?_, ?_⟩
  · intro x hx hsend
    cases List.mem_append.mp hx with
    | inl hx =>
      obtain ⟨c, hc, hmem, hwire⟩ := h.logged x hx hsend
      exact ⟨c, hctr ▸ hc, hlog _ hmem, hwire⟩
    | inr hx =>
      obtain rfl := List.mem_singleton.mp hx
      exact absurd hsend hact
  · refine List.pairwise_append.mpr ⟨h.distinct, List.pairwise_singleton _ _, ?_⟩
    intro x _ y hy _ hsend
    obtain rfl := List.mem_singleton.mp hy
    exact absurd hsend hact

theorem Posted.masterSend {s : State} {trace : List Event} (h : Posted K encrypt s trace) (i : Nat)
    (m : Int32 × Bytes) (hctr : s.sendNonceCtr i+1 < 2^64) :
    Posted K encrypt (masterSend K.toSecrets encrypt s i m.1 m.2)
      (trace ++ [sendEvent K.toSecrets encrypt s i m]) := by
  have hnext : (s.sendNonceCtr i+1)%2^64 = s.sendNonceCtr i+1 := Nat.mod_eq_of_lt hctr
  have hself : s.sendNonceCtr i <
      Function.update s.sendNonceCtr i ((s.sendNonceCtr i+1)%2^64) i := by
    rw [Function.update_self, hnext]
    exact Nat.lt_succ_self _
  have hgrows : ∀ j, s.sendNonceCtr j ≤
      Function.update s.sendNonceCtr i ((s.sendNonceCtr i+1)%2^64) j := by
    intro j
    by_cases hj : j = i
    · exact hj ▸ hself.le
    · rw [Function.update_of_ne hj]
  refine ⟨sealed_concat h.sealed _ _ _, ?_, ?_⟩
  · intro x hx hsend
    cases List.mem_append.mp hx with
    | inl hx =>
      obtain ⟨c, hc, hmem, hwire⟩ := h.logged x hx hsend
      exact ⟨c, hc.trans_le (hgrows x.worker), List.mem_append_left _ hmem, hwire⟩
    | inr hx =>
      obtain rfl := List.mem_singleton.mp hx
      exact ⟨s.sendNonceCtr i, hself, List.mem_append_right _ (List.mem_singleton.mpr rfl), rfl⟩
  · refine List.pairwise_append.mpr ⟨h.distinct, List.pairwise_singleton _ _, ?_⟩
    intro x hx y hy hsend _ hworker heq
    obtain rfl := List.mem_singleton.mp hy
    -- the number of an earlier message is below the counter
    obtain ⟨c, hc, _, hwire⟩ := h.logged x hx hsend
    have hlt : c < s.sendNonceCtr i := by
      rwa [show x.worker = i from hworker] at hc
    have hold : nonceCounter x.wire = c := by
      rw [hwire]
      exact nonceCounter_makeNonce (by omega) _
    have hnew : nonceCounter (sendEvent K.toSecrets encrypt s i m).wire = s.sendNonceCtr i :=
      nonceCounter_makeNonce (by omega) _
    rw [← heq, hold] at hnew
    omega

theorem Posted.kept {allowed : List Event → Nat → Int32 → Bytes → Prop} :
    Kept K.toSecrets encrypt nworkers allowed fun s trace =>
      Short trace → Channelled K s trace ∧ Posted K encrypt s trace where
  same := by
    intro s s' trace h hlog hsend hrecv hworkers hshort
    obtain ⟨hchannelled, hposted⟩ := h hshort
    have hkept : Kept K.toSecrets encrypt nworkers allowed fun s trace =>
      Short trace → Channelled K s trace := Channelled.kept
    refine ⟨hkept.same (fun _ => hchannelled) hlog hsend hrecv hworkers hshort, ?_⟩
    exact ⟨by rw [hlog]; exact hposted.sealed, by rw [hlog, hsend]; exact hposted.logged,
      hposted.distinct⟩
  masterSend := by
    intro s trace i m hi hword h hshort
    obtain ⟨hchannelled, hposted⟩ := h hshort.of_append
    have hlt : s.sendNonceCtr i+1 < 2^64 := hchannelled.words.counter i ▸ hshort.sends.1 rfl
    exact ⟨hchannelled.masterSend hi m hword.1 (hshort.sends.1 rfl), hposted.masterSend i m hlt⟩
  masterAccept := by
    intro s trace i buf p next hi hrecv h hshort
    obtain ⟨hchannelled, hposted⟩ := h hshort.of_append
    exact ⟨hchannelled.masterAccept hi hrecv hshort.of_append,
      hposted.other Act.noConfusion rfl (fun _ hr => hr) hposted.sealed⟩
  workerAccept := by
    intro s trace i tag buf p next hi hrecv _ h hshort
    obtain ⟨hchannelled, hposted⟩ := h hshort.of_append
    exact ⟨hchannelled.workerAccept hi tag hrecv hshort.of_append,
      hposted.other Act.noConfusion rfl (fun _ hr => hr) hposted.sealed⟩
  workerSend := by
    intro s trace i word buf hi _ _ h hshort
    obtain ⟨hchannelled, hposted⟩ := h hshort.of_append
    exact ⟨hchannelled.workerSend hi _ (resultPair_length _) (hshort.sends.2 rfl),
      hposted.other Act.noConfusion rfl (fun _ hr => List.mem_append_left _ hr)
        (sealed_concat hposted.sealed _ _ _)⟩
  stop := fun i h hshort => ⟨(h hshort).1.stopWorker i, (h hshort).2.sealed, (h hshort).2.logged,
    (h hshort).2.distinct⟩

/-- A message that is passed off is taken in. -/
theorem passed_off_accepted {s : State} {trace : List Event} (hcounted : Counted s trace)
    (hchannelled : Channelled K s trace) (hposted : Posted K encrypt s trace)
    (hinjective : ∀ key nonce p q, encrypt key nonce p = encrypt key nonce q → p = q)
    {e : Event} (hmem : e ∈ trace) (hact : e.act = .masterSends)
    (hfresh : expected e.worker trace ≤ nonceCounter e.wire) :
    ∃ next, secureRecv s.log (sessionKey K.toSecrets e.worker) (s.workers e.worker).recvNonceCtr 4
      e.wire = some (e.plaintext, next) := by
  obtain ⟨c, hc, hlog, hwire⟩ := hposted.logged e hmem hact
  have hlen : e.plaintext.length = 4 := by
    refine hchannelled.words.lengths e.worker (e.plaintext, e.wire) ?_
    rw [messages]
    exact List.mem_map.mpr ⟨e, List.mem_filter.mpr ⟨hmem, by simp [hact]⟩, rfl⟩
  obtain ⟨htake, hdrop⟩ := append_split
    (b := encrypt (wkey K.toSecrets e.worker) (makeNonce c) e.plaintext) (makeNonce_length c)
  refine ⟨(nonceCounter e.wire+1)%2^64, ?_⟩
  rw [secureRecv, if_neg (Nat.not_lt.mpr (hcounted e.worker ▸ hfresh)), sessionKey_eq]
  rw [hwire, wire, htake, hdrop, openSealed_sealed hinjective hposted.sealed hlog]
  simp only [hlen, ne_eq, not_true_eq_false, if_false]

/-- A message that is passed off leaves a trace that is not genuine. -/
theorem passed_off_not_genuine {s : State} {trace : List Event}
    (h : HostileRun K.toSecrets encrypt nworkers tasks (s, trace)) (hshort : Short trace)
    (hinjective : ∀ key nonce p q, encrypt key nonce p = encrypt key nonce q → p = q)
    {i : Nat} {tag : Int32} {buf : Bytes} (hpasses : PassesOff trace i tag buf) :
    ¬Justified Genuine (trace ++ workerEvents K.toSecrets encrypt s i tag buf) := by
  obtain ⟨hfresh, e, hmem, hact, rfl, rfl, htag, hcase⟩ := hpasses
  have hkept : Kept K.toSecrets encrypt nworkers (fun _ _ _ _ => True) Counted := Counted.kept
  have hcounted : Counted s trace := hkept.run (fun _ => rfl) h
  have hinit : Channelled K (initial nworkers) [] ∧ Posted K encrypt (initial nworkers) [] :=
    ⟨channelled_initial, by simp [initial], by simp, .nil⟩
  obtain ⟨hchannelled, hposted⟩ := Posted.kept.run (fun _ => hinit) h hshort
  obtain ⟨next, hrecv⟩ := passed_off_accepted hcounted hchannelled hposted hinjective hmem hact
    hfresh
  have hevents : ∃ rest, workerEvents K.toSecrets encrypt s e.worker tag e.wire =
      ⟨.workerAccepts, e.worker, tag, e.plaintext, e.wire⟩ :: rest := by
    simp only [workerEvents, hrecv]
    by_cases hctrl : tag = tagShutdown ∨ tag = tagIdle
    · exact ⟨[], if_pos hctrl⟩
    · have htask : tag = tagTask := by
        refine hcase.resolve_right fun hc => hctrl ?_
        exact (sentinel_some hc.2).imp (·.1) (·.1)
      rw [if_neg hctrl, if_pos htask]
      exact ⟨_, rfl⟩
  obtain ⟨rest, hrest⟩ := hevents
  rw [hrest]
  intro hgenuine
  have hsent := hgenuine trace _ rest rfl (hcase.imp id (·.2))
  exact hposted.distinct.forall hmem hsent (fun heq => htag (congrArg Event.tag heq)) hact rfl rfl rfl

end

section Sample

def idleWire : Bytes := wire plainEncrypt (wkey plainSecrets 1) 0 (storeWord ctrlMagicIdle)

/-- Two workers share one task. The second gets the idle message as a task and answers. -/
theorem idle_passed_off :
    ∃ s trace, HostileRun plainSecrets plainEncrypt 2 [2] (s, trace) ∧
      (∃ w, ⟨.workerSends, 1, tagResult, resultPair ctrlMagicIdle.toInt32, w⟩ ∈ trace) ∧
      (∀ e ∈ trace, e.act = .masterSends → e.worker = 1 → e.tag = tagIdle) ∧
      ¬Justified Genuine trace := by
  have hfirst := (Reachable.start rfl : HostileRun plainSecrets plainEncrypt 2 [2] _).next
    (.master (fun _ => []) false)
  have hsecond := hfirst.next (.master (fun _ => []) false)
  have hretagged := hsecond.next
    (.worker (i := 1) tagTask idleWire (by decide) (by decide +kernel) trivial)
  refine ⟨_, _, hretagged, ⟨wire plainEncrypt (sessionKey plainSecrets 1) 0
    (resultPair ctrlMagicIdle.toInt32), by decide +kernel⟩, by decide +kernel, ?_⟩
  refine passed_off_not_genuine (K := plainFresh 2) hsecond (short_of_length (by decide +kernel))
    plainEncrypt_injective ⟨by decide +kernel,
      ⟨.masterSends, 1, tagIdle, storeWord ctrlMagicIdle, idleWire⟩, by decide +kernel, rfl, rfl,
      rfl, by decide, .inl rfl⟩

/-- A task that arrives as it was sent. -/
theorem careful_task_genuine : ∃ s trace, NetRun plainSecrets plainEncrypt 1 [2] Careful (s, trace) ∧
    trace.length = 3 ∧ Justified Genuine trace := by
  have hsent := (Reachable.start rfl : NetRun plainSecrets plainEncrypt 1 [2] Careful _).next
    (.master (fun _ => []) false)
  have htaken := hsent.next (.worker (i := 0) tagTask sampleWire (by decide) (by decide +kernel)
    (by unfold Careful PassesOff; decide +kernel))
  refine ⟨_, _, htaken, ?_, careful_run_genuine (K := plainFresh 1) htaken⟩
  decide +kernel

end Sample
end DistributedEnclave.Attest
