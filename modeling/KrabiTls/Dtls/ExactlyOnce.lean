import Mathlib.Data.List.Nodup
import KrabiTls.Dtls.Delivery

/-! Exactly-once delivery: each application payload is returned at its first arrival, and only then. -/
namespace KrabiTls.Dtls
open Lib
variable {a : AeadBackend} {m : Masker} {k : EpochKeys} {cid : Option Bytes}

namespace ServerRecord

/-- `recv_hint` after the numbers `seen` were accepted. -/
def hintAfter (seen : List Nat) : Nat :=
  seen.foldr (fun seq hint => max hint ((seq + 1) % 2 ^ 64)) 0

def note (seen : List Nat) (seq : Nat) : List Nat :=
  if seq ∈ seen then seen else seq :: seen

def seenAfter (seen : List Nat) (rs : List (ServerRecord a m k cid)) : List Nat :=
  rs.foldl (fun seen r => note seen r.seq) seen

/-- Every arriving copy has a number within `2 ^ 15 - 1` of the hint, and every first arrival one
above the highest number received so far minus 64. -/
def Admissible (seen : List Nat) : List (ServerRecord a m k cid) → Prop
  | [] => True
  | r :: rs =>
      r.seq ≤ hintAfter seen + (2 ^ 15 - 1) ∧ hintAfter seen ≤ r.seq + (2 ^ 15 - 1) ∧
        (r.seq ∉ seen → ∀ x ∈ seen, x < r.seq + 64) ∧ Admissible (note seen r.seq) rs

instance decAdmissible (seen : List Nat) :
    (rs : List (ServerRecord a m k cid)) → Decidable (Admissible seen rs)
  | [] => inferInstanceAs (Decidable True)
  | r :: rs =>
      have := decAdmissible (note seen r.seq) rs
      inferInstanceAs (Decidable (_ ∧ _ ∧ _ ∧ _))

theorem admissible_append {seen : List Nat} {rs more : List (ServerRecord a m k cid)} :
    Admissible seen (rs ++ more) ↔ Admissible seen rs ∧ Admissible (seenAfter seen rs) more := by
  induction rs generalizing seen with
  | nil => simp [Admissible, seenAfter]
  | cons r rs ih =>
    simp only [List.cons_append, Admissible, ih, and_assoc]
    rfl

section Arrival
variable {seen : List Nat} {r : ServerRecord a m k cid} {rs : List (ServerRecord a m k cid)}

theorem Admissible.of_again (h : Admissible seen (r :: rs)) (hmem : r.seq ∈ seen) :
    Admissible seen rs := by
  have hrest := h.2.2.2
  rwa [note, if_pos hmem] at hrest

theorem Admissible.of_new (h : Admissible seen (r :: rs)) (hmem : r.seq ∉ seen) :
    Admissible (r.seq :: seen) rs := by
  have hrest := h.2.2.2
  rwa [note, if_neg hmem] at hrest

theorem seenAfter_of_again (hmem : r.seq ∈ seen) : seenAfter seen (r :: rs) = seenAfter seen rs := by
  rw [seenAfter, List.foldl_cons, note, if_pos hmem]
  rfl

theorem seenAfter_of_new (hmem : r.seq ∉ seen) :
    seenAfter seen (r :: rs) = seenAfter (r.seq :: seen) rs := by
  rw [seenAfter, List.foldl_cons, note, if_neg hmem]
  rfl

end Arrival

/-- The records whose number was not received before, in order of their first arrival. -/
def firstArrivals (seen : List Nat) : List (ServerRecord a m k cid) → List (ServerRecord a m k cid)
  | [] => []
  | r :: rs => if r.seq ∈ seen then firstArrivals seen rs else r :: firstArrivals (r.seq :: seen) rs

theorem firstArrivals_append (seen : List Nat) (rs more : List (ServerRecord a m k cid)) :
    firstArrivals seen (rs ++ more) =
      firstArrivals seen rs ++ firstArrivals (seenAfter seen rs) more := by
  induction rs generalizing seen with
  | nil => rfl
  | cons r rs ih =>
    by_cases hmem : r.seq ∈ seen
    · simp only [List.cons_append, firstArrivals, if_pos hmem, ih, seenAfter, List.foldl_cons, note]
    · simp only [List.cons_append, firstArrivals, if_neg hmem, ih, seenAfter, List.foldl_cons, note]

/-- Where the numbers of different records are different, these are the arrivals without repeats. -/
theorem firstArrivals_eq_eraseDups (old rs : List (ServerRecord a m k cid))
    (hinj : ∀ r ∈ old ++ rs, ∀ r' ∈ old ++ rs, r.seq = r'.seq → r = r') :
    firstArrivals (old.map seq) rs = (rs.filter (· ∉ old)).eraseDups := by
  induction rs generalizing old with
  | nil => rfl
  | cons r rs ih =>
    have hmem : r.seq ∈ old.map seq ↔ r ∈ old := by
      constructor
      · intro h
        obtain ⟨r', hr', heq⟩ := List.mem_map.mp h
        rwa [hinj r (by simp) r' (by simp [hr']) heq.symm]
      · exact List.mem_map_of_mem
    rw [firstArrivals]
    by_cases hold : r ∈ old
    · rw [if_pos (hmem.mpr hold), List.filter_cons_of_neg (by simpa using hold)]
      apply ih
      intro x hx y hy
      exact hinj x (by simp at hx ⊢; tauto) y (by simp at hy ⊢; tauto)
    · rw [if_neg (mt hmem.mp hold), List.filter_cons_of_pos (by simpa using hold),
        List.eraseDups_cons, ← List.map_cons, ih (r :: old)]
      · rw [List.filter_filter]
        congr 3
        funext x
        by_cases hx : x = r <;> simp [hx]
      · intro x hx y hy
        exact hinj x (by simp at hx ⊢; tauto) y (by simp at hy ⊢; tauto)

def payloads (rs : List (ServerRecord a m k cid)) : List Bytes :=
  (rs.filter (·.contentType = ctApplicationData)).map content

theorem payloads_of_new_other {seen : List Nat} {r : ServerRecord a m k cid}
    {rs : List (ServerRecord a m k cid)} (hmem : r.seq ∉ seen)
    (hother : r.contentType ≠ ctApplicationData) :
    payloads (firstArrivals seen (r :: rs)) = payloads (firstArrivals (r.seq :: seen) rs) := by
  rw [firstArrivals, if_neg hmem, payloads, List.filter_cons_of_neg (by simpa using hother)]
  rfl

end ServerRecord

namespace DtlsReceiver
open ServerRecord

variable {rs : List (ServerRecord a m k cid)}

/-- The client has accepted the numbers `seen`. -/
structure Knows (c : DtlsReceiver) (seen : List Nat) : Prop where
  tracks : c.serverReplay.Tracks seen
  hint : c.recvHint = hintAfter seen

variable {c : DtlsReceiver} {seen : List Nat}

theorem Knows.acceptSeq (h : c.Knows seen) (seq : Nat) : (c.acceptSeq seq).Knows (seq :: seen) where
  tracks := h.tracks.mark seq
  hint := by
    show max c.recvHint _ = _
    rw [h.hint]
    rfl

theorem Knows.withStash (h : c.Knows seen) (stash : Bytes) : (c.withStash stash).Knows seen :=
  ⟨h.tracks, h.hint⟩

/-- Of an admissible record the number is reconstructed, and the window accepts it if it is new. -/
theorem Knows.reads_first (h : c.Knows seen) {r : ServerRecord a m k cid}
    (hadm : Admissible seen (r :: rs)) :
    reconstructSeq (r.seq % 2 ^ 16) 16 c.recvHint = r.seq ∧
      (c.serverReplay.accepts r.seq = true ↔ r.seq ∉ seen) := by
  obtain ⟨hlow, hhigh, hwindow, _⟩ := hadm
  rw [← h.hint] at hlow hhigh
  refine ⟨reconstructSeq_eq (by decide) r.seq_lt (by omega) (by omega), ?_⟩
  rw [h.tracks.accepts_iff]
  constructor
  · rintro (rfl | hhigh | ⟨hnew, _⟩)
    · simp
    · intro hmem
      have := h.tracks.le_highest _ hmem
      omega
    · exact hnew
  · intro hnew
    by_cases hany : seen = []
    · exact .inl hany
    · have := hwindow hnew _ (h.tracks.highest_mem hany)
      refine .inr (.inr ⟨hnew, ?_⟩)
      simp only [ReplayWindow.window]
      omega

/-- The first of the records: one that came before changes nothing; a new one is accepted, and ends
the search if it carries application data. -/
theorem Knows.nextPayload_cons (h : c.Knows seen) {r : ServerRecord a m k cid}
    (hadm : Admissible seen (r :: rs)) :
    c.nextPayload (r :: rs) =
      if r.seq ∈ seen then c.nextPayload rs
      else if r.contentType = ctApplicationData then (some (r.content, rs), c.acceptSeq r.seq)
      else (c.acceptSeq r.seq).nextPayload rs := by
  obtain ⟨hseq, haccepts⟩ := h.reads_first hadm
  rw [nextPayload, if_neg (not_not_intro hseq)]
  by_cases hmem : r.seq ∈ seen
  · rw [if_pos (by simp [haccepts, hmem]), if_pos hmem]
  · rw [if_neg (by simp [haccepts, hmem]), if_neg hmem]

theorem nextPayload_none (h : c.Knows seen) (hadm : Admissible seen rs) {c' : DtlsReceiver}
    (hnext : c.nextPayload rs = (none, c')) :
    payloads (firstArrivals seen rs) = [] ∧ c'.Knows (seenAfter seen rs) := by
  induction rs generalizing c seen with
  | nil =>
    cases hnext
    exact ⟨rfl, h⟩
  | cons r rs ih =>
    rw [h.nextPayload_cons hadm] at hnext
    split at hnext
    next hmem =>
      rw [firstArrivals, if_pos hmem, seenAfter_of_again hmem]
      exact ih h (hadm.of_again hmem) hnext
    next hmem =>
      split at hnext
      next => cases hnext
      next hother =>
        rw [payloads_of_new_other hmem hother, seenAfter_of_new hmem]
        exact ih (h.acceptSeq r.seq) (hadm.of_new hmem) hnext

theorem nextPayload_some (h : c.Knows seen) {rest : List (ServerRecord a m k cid)}
    (hadm : Admissible seen rs) {content : Bytes} {c' : DtlsReceiver}
    (hnext : c.nextPayload rs = (some (content, rest), c')) :
    ∃ seen', c'.Knows seen' ∧ Admissible seen' rest ∧ seenAfter seen' rest = seenAfter seen rs ∧
      payloads (firstArrivals seen rs) = content :: payloads (firstArrivals seen' rest) := by
  induction rs generalizing c seen with
  | nil => cases hnext
  | cons r rs ih =>
    rw [h.nextPayload_cons hadm] at hnext
    split at hnext
    next hmem =>
      rw [firstArrivals, if_pos hmem, seenAfter_of_again hmem]
      exact ih h (hadm.of_again hmem) hnext
    next hmem =>
      split at hnext
      next happ =>
        cases hnext
        refine ⟨r.seq :: seen, h.acceptSeq r.seq, hadm.of_new hmem, (seenAfter_of_new hmem).symm, ?_⟩
        rw [firstArrivals, if_neg hmem, payloads, List.filter_cons_of_pos (by simpa using happ)]
        rfl
      next hother =>
        rw [payloads_of_new_other hmem hother, seenAfter_of_new hmem]
        exact ih (h.acceptSeq r.seq) (hadm.of_new hmem) hnext

end DtlsReceiver

namespace DtlsLink
open ServerRecord
variable {ε : Type}

def arrivals (inputs : List (Option (Coalesced a m k cid))) : List (ServerRecord a m k cid) :=
  inputs.flatMap fun input => input.elim [] Subtype.val

/-- What the calls of `recv` return: the new payloads of each datagram, and nothing at a timeout. -/
def outcomes (seen : List Nat) : List (Option (Coalesced a m k cid)) → List (Option Bytes)
  | [] => []
  | none :: later => none :: outcomes seen later
  | some d :: later =>
      (payloads (firstArrivals seen d.val)).map some ++ outcomes (seenAfter seen d.val) later

theorem arrivals_some (d : Coalesced a m k cid) (later : List (Option (Coalesced a m k cid))) :
    arrivals (some d :: later) = d.val ++ arrivals later := rfl

theorem payloads_append (rs more : List (ServerRecord a m k cid)) :
    payloads (rs ++ more) = payloads rs ++ payloads more := by
  simp [payloads]

theorem outcomes_filterMap (seen : List Nat) (inputs : List (Option (Coalesced a m k cid))) :
    (outcomes seen inputs).filterMap id = payloads (firstArrivals seen (arrivals inputs)) := by
  fun_induction outcomes seen inputs with
  | case1 => rfl
  | case2 seen later ih => exact ih
  | case3 seen d later ih =>
    rw [List.filterMap_append, ih, arrivals_some, firstArrivals_append, payloads_append]
    simp

theorem outcomes_length (seen : List Nat) (inputs : List (Option (Coalesced a m k cid))) :
    (outcomes seen inputs).length = (payloads (firstArrivals seen (arrivals inputs))).length +
      inputs.countP Option.isNone := by
  fun_induction outcomes seen inputs with
  | case1 => rfl
  | case2 seen later ih =>
    rw [List.length_cons, ih, List.countP_cons_of_pos (by rfl)]
    rfl
  | case3 seen d later ih =>
    rw [List.length_append, ih, arrivals_some, firstArrivals_append, payloads_append,
      List.countP_cons_of_neg (by simp), List.length_append, List.length_map, Nat.add_assoc]

/-- The client has accepted `seen`, and admissible datagrams are ahead of it. -/
structure Serves (s : DtlsLink ε) (seen : List Nat) (inputs : List (Option (Coalesced a m k cid))) :
    Prop where
  feeds : s.Feeds inputs
  reads : s.client.Reads k cid
  knows : s.client.Knows seen
  admissible : Admissible seen (arrivals inputs)

/-- One call: it waits if there is nothing to return, and returns the first of the outcomes else. -/
theorem Serves.recv (hcorrect : a.Correct) (hbound : a.NonceBound) {s : DtlsLink ε} {seen : List Nat}
    {inputs : List (Option (Coalesced a m k cid))} (h : s.Serves seen inputs) {bufLen : Nat}
    (hbuf : ∀ payload, some payload ∈ outcomes seen inputs → payload.length ≤ bufLen) :
    (outcomes seen inputs = [] ∧ (DtlsLink.recv a m bufLen).exec s = none) ∨
      ∃ outcome s' seen', ∃ inputs' : List (Option (Coalesced a m k cid)),
        (DtlsLink.recv a m bufLen).exec s = some (.ok outcome, s') ∧
        outcomes seen inputs = outcome :: outcomes seen' inputs' ∧ s'.Serves seen' inputs' := by
  induction inputs generalizing s seen with
  | nil =>
    obtain ⟨hstash, hrecvs⟩ | ⟨_, _, ⟨⟩, _⟩ := h.feeds
    exact .inl ⟨rfl, recv_waits hstash hrecvs bufLen⟩
  | cons input later ih =>
    cases input with
    | none =>
      obtain ⟨s', hexec, hclient, hfeeds⟩ := recv_timeout h.feeds bufLen
      exact .inr ⟨none, s', seen, later, hexec, rfl,
        ⟨hfeeds, hclient ▸ h.reads, hclient ▸ h.knows, h.admissible⟩⟩
    | some d =>
      obtain ⟨t, hrecvs, hexec⟩ := recv_datagram hcorrect hbound h.feeds h.reads bufLen
      have hboth := h.admissible
      rw [arrivals_some] at hboth
      obtain ⟨hadm, hlater⟩ := admissible_append.mp hboth
      have hreads := h.reads.withStash []
      have hknows := h.knows.withStash []
      rcases hnext : (s.client.withStash []).nextPayload d.val with ⟨_ | ⟨content, rest⟩, c⟩
      · -- nothing new in this datagram: the loop goes on to the next
        obtain ⟨hpay, hknows'⟩ := DtlsReceiver.nextPayload_none hknows hadm hnext
        obtain ⟨hreads', hstash⟩ := DtlsReceiver.nextPayload_reads hreads hnext
        have hserves : (⟨c, t⟩ : DtlsLink ε).Serves (seenAfter seen d.val) later :=
          ⟨.inl ⟨hstash, hrecvs⟩, hreads', hknows', hlater⟩
        have hout : outcomes seen (some d :: later) = outcomes (seenAfter seen d.val) later := by
          rw [outcomes, hpay]
          rfl
        rw [hnext] at hexec
        rw [hout] at hbuf ⊢
        rw [hexec]
        exact ih hserves hbuf
      · obtain ⟨seen', hknows', hadm', hafter, hpay⟩ :=
          DtlsReceiver.nextPayload_some hknows hadm hnext
        obtain ⟨hreads', _⟩ := DtlsReceiver.nextPayload_reads hreads hnext
        have hreads'' := hreads'.withStash (wires rest)
        have hknows'' := hknows'.withStash (wires rest)
        have hout : outcomes seen (some d :: later) = some content ::
            ((payloads (firstArrivals seen' rest)).map some ++ outcomes (seenAfter seen' rest) later) := by
          rw [outcomes, hpay, hafter]
          rfl
        have hfits : ¬ content.length > bufLen :=
          Nat.not_lt.mpr (hbuf content (hout ▸ List.mem_cons_self))
        rw [hnext] at hexec
        dsimp only at hexec
        rw [if_neg hfits] at hexec
        rw [← hafter] at hlater
        refine .inr ?_
        by_cases hrest : rest = []
        · -- the datagram is used up
          subst hrest
          exact ⟨some content, _, seen', later, hexec, hout,
            ⟨.inl ⟨rfl, hrecvs⟩, hreads'', hknows'', hlater⟩⟩
        · have hsize := Coalesced.wires_suffix (DtlsReceiver.nextPayload_suffix hnext)
          exact ⟨some content, _, seen', some ⟨rest, hsize⟩ :: later, hexec, hout,
            ⟨.inr ⟨_, later, rfl, rfl, mt wires_eq_nil_iff.mp hrest, hrecvs⟩, hreads'', hknows'',
              admissible_append.mpr ⟨hadm', hlater⟩⟩⟩

/-- As many calls as there are outcomes return them in order, and the next call waits. -/
theorem Serves.recvAll (hcorrect : a.Correct) (hbound : a.NonceBound) {s : DtlsLink ε}
    {seen : List Nat} {inputs : List (Option (Coalesced a m k cid))} (h : s.Serves seen inputs)
    {bufLens : List Nat} (hcount : bufLens.length = (outcomes seen inputs).length)
    (hbuf : ∀ bufLen ∈ bufLens, ∀ payload, some payload ∈ outcomes seen inputs →
      payload.length ≤ bufLen) :
    ∃ s' : DtlsLink ε, s.recvAll a m bufLens = some ((outcomes seen inputs).map .ok, s') ∧
      ∀ bufLen, (DtlsLink.recv a m bufLen).exec s' = none := by
  induction bufLens generalizing s seen inputs with
  | nil =>
    have hnil := List.length_eq_zero_iff.mp hcount.symm
    refine ⟨s, by rw [hnil]; rfl, ?_⟩
    intro bufLen
    rcases h.recv hcorrect hbound (by simp [hnil]) with
      ⟨_, hwait⟩ | ⟨outcome, s', seen', inputs', _, hcons, _⟩
    · exact hwait
    · rw [hnil] at hcons
      cases hcons
  | cons bufLen bufLens ih =>
    obtain ⟨hfirst, hbuf⟩ := List.forall_mem_cons.mp hbuf
    rcases h.recv hcorrect hbound hfirst with
      ⟨hnil, _⟩ | ⟨outcome, s', seen', inputs', hok, hcons, hserves⟩
    · rw [hnil] at hcount
      cases hcount
    · rw [hcons] at hcount hbuf ⊢
      obtain ⟨s'', hall, hwait⟩ := ih hserves (Nat.succ.inj hcount)
        fun n hn payload hmem => hbuf n hn payload (List.mem_cons_of_mem _ hmem)
      refine ⟨s'', ?_, hwait⟩
      rw [DtlsLink.recvAll, hok]
      simp [hall]

end DtlsLink

structure DtlsReceiver.Fresh (c : DtlsReceiver) (k : EpochKeys) (cid : Option Bytes) : Prop where
  serverApp : c.serverApp = k
  cidLen : (cid.map List.length).getD 0 = c.recvCidLen
  cid_some : cid.isSome ↔ c.recvCidLen > 0
  hint : c.recvHint = 0
  replay : c.serverReplay = .new
  stash : c.recvStash = []

/-- A server seals records with different numbers, and the transport delivers copies of them, in any
order and coalesced in any way. As many calls as there are payloads and timeouts return every
application payload once, in order of first arrival; the next call waits. -/
theorem DtlsLink.recv_exactly_once {ε : Type} (hcorrect : a.Correct) (hbound : a.NonceBound)
    {s : DtlsLink ε} (hfresh : s.client.Fresh k cid) (records : List (ServerRecord a m k cid))
    (hdistinct : (records.map ServerRecord.seq).Nodup)
    {inputs : List (Option (Coalesced a m k cid))} (hgenuine : arrivals inputs ⊆ records)
    (hadm : ServerRecord.Admissible [] (arrivals inputs)) (hrecvs : s.transport.recvs = replies inputs)
    {bufLens : List Nat}
    (hcount : bufLens.length = (ServerRecord.payloads (arrivals inputs).eraseDups).length +
      inputs.countP Option.isNone)
    (hbuf : ∀ bufLen ∈ bufLens, ∀ r ∈ records, r.content.length ≤ bufLen) :
    ∃ results : List (Option Bytes), ∃ s', s.recvAll a m bufLens = some (results.map .ok, s') ∧
      results.filterMap id = ServerRecord.payloads (arrivals inputs).eraseDups ∧
      ∀ bufLen, (DtlsLink.recv a m bufLen).exec s' = none := by
  have hinj : ∀ r ∈ records, ∀ r' ∈ records, r.seq = r'.seq → r = r' :=
    fun r hr r' hr' h => List.inj_on_of_nodup_map hdistinct hr hr' h
  have hfirst : ServerRecord.firstArrivals [] (arrivals inputs) = (arrivals inputs).eraseDups := by
    have h := ServerRecord.firstArrivals_eq_eraseDups [] (arrivals inputs)
      fun r hr r' hr' => hinj r (hgenuine hr) r' (hgenuine hr')
    simpa using h
  have hserves : s.Serves [] inputs :=
    { feeds := .inl ⟨hfresh.stash, hrecvs⟩
      reads := ⟨hfresh.serverApp, hfresh.cidLen, hfresh.cid_some, by rw [hfresh.hint]; decide⟩
      knows := ⟨by rw [hfresh.replay]; exact .new, hfresh.hint⟩
      admissible := hadm }
  rw [← hfirst] at hcount ⊢
  have hpayload (payload : Bytes) (h : some payload ∈ outcomes [] inputs) :
      ∃ r ∈ records, r.content = payload := by
    have hmem : payload ∈ (outcomes [] inputs).filterMap id :=
      List.mem_filterMap.mpr ⟨some payload, h, rfl⟩
    rw [outcomes_filterMap, hfirst] at hmem
    obtain ⟨r, hr, rfl⟩ := List.mem_map.mp hmem
    exact ⟨r, hgenuine (List.mem_eraseDups.mp (List.mem_of_mem_filter hr)), rfl⟩
  obtain ⟨s', hall, hwait⟩ := hserves.recvAll hcorrect hbound
    (hcount.trans (outcomes_length [] inputs).symm) fun n hn payload h => by
      obtain ⟨r, hr, rfl⟩ := hpayload payload h
      exact hbuf n hn r hr
  exact ⟨outcomes [] inputs, s', hall, outcomes_filterMap [] inputs, hwait⟩

namespace Sample

/-- Two payloads and a ticket, reordered, with a duplicate and a timeout. -/
def reordered : List (Option Input) := [some lastTwo, none, some firstTwo]

end Sample

theorem DtlsLink.recv_exactly_once_reordered :
    ∃ results : List (Option Bytes), ∃ s',
      (Sample.link Sample.reordered).recvAll AeadBackend.clear DtlsClient.sampleMasker [64, 64, 64] =
        some (results.map .ok, s') ∧
      results.filterMap id = [[3], [1, 2]] ∧
      ∀ bufLen, (DtlsLink.recv AeadBackend.clear DtlsClient.sampleMasker bufLen).exec s' = none := by
  have hfresh : (Sample.link Sample.reordered).client.Fresh Sample.receiver.serverApp none :=
    ⟨rfl, rfl, by decide, rfl, rfl, rfl⟩
  have hgenuine : arrivals Sample.reordered ⊆ [Sample.first, Sample.second, Sample.ticket] := by
    decide +kernel
  exact DtlsLink.recv_exactly_once AeadBackend.clear_correct AeadBackend.clear_nonceBound hfresh
    [Sample.first, Sample.second, Sample.ticket] (by decide +kernel) hgenuine (by decide +kernel) rfl
    (by decide +kernel) (by decide +kernel)

end KrabiTls.Dtls
