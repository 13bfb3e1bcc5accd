import Mathlib.Data.List.Infix
import KrabiTls.Dtls.ExactlyOnce

/-! `recv` under an attacker who decides on every datagram. As long as no record is forged, the client
accepts each record of the server at most once and returns nothing but their payloads. -/
namespace KrabiTls.Dtls
open Lib
variable {a : AeadBackend} {m : Masker} {k : EpochKeys} {cidLen : Nat}

/-- What a server has sealed under one number. -/
structure SentRecord where
  seq : Nat
  contentType : UInt8
  content : Bytes
  deriving DecidableEq, Repr

namespace SentRecord

/-- The hints of a client that has accepted some of the records. -/
def hints (log : List SentRecord) : List Nat :=
  0 :: log.map fun r => (r.seq + 1) % 2 ^ 64

/-- The application data of accepted records, of which the last one comes first. -/
def payloads (accepted : List SentRecord) : List Bytes :=
  (accepted.reverse.filter (·.contentType = ctApplicationData)).map content

theorem payloads_cons (r : SentRecord) (accepted : List SentRecord) :
    payloads (r :: accepted) =
      payloads accepted ++ if r.contentType = ctApplicationData then [r.content] else [] := by
  rw [payloads, List.reverse_cons, List.filter_append, List.map_append, ← payloads]
  by_cases happ : r.contentType = ctApplicationData <;> simp [happ]

theorem hintAfter_mem_hints {accepted log : List SentRecord} (h : accepted ⊆ log) :
    ServerRecord.hintAfter (accepted.map seq) ∈ hints log := by
  induction accepted with
  | nil => exact List.mem_cons_self
  | cons r accepted ih =>
    obtain ⟨hr, hrest⟩ := List.cons_subset.mp h
    show max (ServerRecord.hintAfter (accepted.map seq)) ((r.seq + 1) % 2 ^ 64) ∈ hints log
    rcases max_choice (ServerRecord.hintAfter (accepted.map seq)) ((r.seq + 1) % 2 ^ 64) with
      hmax | hmax
    · rw [hmax]
      exact ih hrest
    · rw [hmax]
      exact List.mem_cons_of_mem _ (List.mem_map_of_mem hr)

end SentRecord

def Opened.sent (o : Opened) : SentRecord := ⟨o.seq, o.contentType, o.content⟩

/-- Nothing in `datagram` is forged: what opens anywhere in it under a hint of the client is in
`log`. -/
def Unforged (a : AeadBackend) (m : Masker) (k : EpochKeys) (cidLen : Nat) (log : List SentRecord)
    (datagram : Bytes) : Prop :=
  ∀ rest ∈ datagram.tails, ∀ hint ∈ SentRecord.hints log,
    ∀ o ∈ (k.openRecord a m cidLen hint rest).toOption, o.sent ∈ log

instance (log : List SentRecord) (datagram : Bytes) :
    Decidable (Unforged a m k cidLen log datagram) :=
  inferInstanceAs (Decidable (∀ rest ∈ datagram.tails, ∀ hint ∈ SentRecord.hints log,
    ∀ o ∈ (k.openRecord a m cidLen hint rest).toOption, o.sent ∈ log))

theorem Unforged.drop {log : List SentRecord} {datagram : Bytes}
    (h : Unforged a m k cidLen log datagram) (n : Nat) : Unforged a m k cidLen log (datagram.drop n) := by
  intro rest hrest
  exact h rest ((List.mem_tails _ _).mpr
    (((List.mem_tails _ _).mp hrest).trans (List.drop_suffix n datagram)))

theorem Unforged.opened {log : List SentRecord} {datagram : Bytes} {hint : Nat} {o : Opened}
    (h : Unforged a m k cidLen log datagram) (hhint : hint ∈ SentRecord.hints log)
    (hopen : k.openRecord a m cidLen hint datagram = .ok o) : o.sent ∈ log :=
  h datagram ((List.mem_tails _ _).mpr List.suffix_rfl) hint hhint o (by rw [hopen]; rfl)

namespace DtlsReceiver

/-- The client has accepted `accepted` out of `log`, the last one first. -/
structure Took (k : EpochKeys) (cidLen : Nat) (log accepted : List SentRecord) (c : DtlsReceiver) :
    Prop where
  serverApp : c.serverApp = k
  recvCidLen : c.recvCidLen = cidLen
  knows : c.Knows (accepted.map SentRecord.seq)
  genuine : accepted ⊆ log
  once : (accepted.map SentRecord.seq).Nodup

variable {log accepted : List SentRecord} {c c' : DtlsReceiver}

theorem Took.hint_mem (h : c.Took k cidLen log accepted) : c.recvHint ∈ SentRecord.hints log :=
  h.knows.hint ▸ SentRecord.hintAfter_mem_hints h.genuine

/-- The window accepts no number that was accepted before. -/
theorem Took.not_mem_of_accepts (h : c.Took k cidLen log accepted) {seq : Nat}
    (haccepts : c.serverReplay.accepts seq = true) : seq ∉ accepted.map SentRecord.seq := by
  intro hmem
  rcases (h.knows.tracks.accepts_iff seq).mp haccepts with hnil | hhigh | ⟨hnew, -⟩
  · rw [hnil] at hmem
    cases hmem
  · have hle := h.knows.tracks.le_highest seq hmem
    omega
  · exact hnew hmem

theorem Took.accept (h : c.Took k cidLen log accepted) {r : SentRecord} (hr : r ∈ log)
    (haccepts : c.serverReplay.accepts r.seq = true) :
    (c.acceptSeq r.seq).Took k cidLen log (r :: accepted) :=
  ⟨h.serverApp, h.recvCidLen, h.knows.acceptSeq r.seq, List.cons_subset.mpr ⟨hr, h.genuine⟩,
    List.nodup_cons.mpr ⟨h.not_mem_of_accepts haccepts, h.once⟩⟩

theorem Took.refuses (h : c.Took k cidLen log accepted) {r : SentRecord} (hr : r ∈ accepted) :
    c.serverReplay.accepts r.seq = false := by
  refine Bool.eq_false_iff.mpr fun haccepts => ?_
  exact h.not_mem_of_accepts haccepts (List.mem_map_of_mem hr)

theorem Took.withStash (h : c.Took k cidLen log accepted) (stash : Bytes) :
    (c.withStash stash).Took k cidLen log accepted :=
  ⟨h.serverApp, h.recvCidLen, h.knows.withStash stash, h.genuine, h.once⟩

end DtlsReceiver

/-- What a walk leaves behind in a client that had the payloads `due` before it: with a payload found,
that is due as well. -/
def Walked.Finds (a : AeadBackend) (m : Masker) (k : EpochKeys) (cidLen : Nat) (log : List SentRecord)
    (due : List Bytes) (found : Walked × DtlsReceiver) : Prop :=
  ∃ accepted, found.2.Took k cidLen log accepted ∧
    match found.1 with
    | .delivered content rest =>
        SentRecord.payloads accepted = due ++ [content] ∧ Unforged a m k cidLen log rest
    | _ => SentRecord.payloads accepted = due

namespace DtlsReceiver
variable {log : List SentRecord} {due : List Bytes} {c : DtlsReceiver}

/-- The client has accepted records with the payloads `due`. -/
def Owes (k : EpochKeys) (cidLen : Nat) (log : List SentRecord) (due : List Bytes)
    (c : DtlsReceiver) : Prop :=
  ∃ accepted, c.Took k cidLen log accepted ∧ SentRecord.payloads accepted = due

/-- A pass over a record: it ends the walk with the client as it was, goes on behind a record that
was opened before, or accepts the record. -/
theorem walkLoop_cases (atHead : Bool) (rest : Bytes) (c : DtlsReceiver) :
    (∃ walked, (walkLoop a m).body (atHead, rest, c) = .leave (walked, c) ∧
      (walked = .ended ∨ walked = .finishedWanted)) ∨
    ∃ opened, c.serverApp.openRecord a m c.recvCidLen c.recvHint rest = .ok opened ∧
      ((walkLoop a m).body (atHead, rest, c) = .again (false, rest.drop opened.recordLen, c) ∨
        c.serverReplay.accepts opened.seq = true ∧
          (opened.contentType = ctApplicationData ∧ (walkLoop a m).body (atHead, rest, c) =
              .leave (.delivered opened.content (rest.drop opened.recordLen), c.acceptSeq opened.seq) ∨
            opened.contentType ≠ ctApplicationData ∧ (walkLoop a m).body (atHead, rest, c) =
              .again (false, rest.drop opened.recordLen, c.acceptSeq opened.seq))) := by
  dsimp only [walkLoop]
  split
  · exact .inl ⟨_, rfl, .inl rfl⟩
  · split
    · exact .inl ⟨_, rfl, .inl rfl⟩
    · split
      · exact .inl ⟨_, rfl, .inr rfl⟩
      · split
        · exact .inl ⟨_, rfl, .inl rfl⟩
        · rename_i opened hopen
          split
          · exact .inl ⟨_, rfl, .inl rfl⟩
          · refine .inr ⟨opened, hopen, ?_⟩
            split
            · exact .inl rfl
            · rename_i haccepts
              rw [not_not] at haccepts
              refine .inr ⟨haccepts, ?_⟩
              split
              · rename_i happ
                exact .inl ⟨happ, rfl⟩
              · rename_i hother
                exact .inr ⟨hother, rfl⟩

/-- A record that is accepted adds its payload to those that are due. -/
theorem Took.accept_opened {accepted : List SentRecord} (h : c.Took k cidLen log accepted)
    {rest : Bytes} (hrest : Unforged a m k cidLen log rest) {opened : Opened}
    (hopen : c.serverApp.openRecord a m c.recvCidLen c.recvHint rest = .ok opened)
    (haccepts : c.serverReplay.accepts opened.seq = true) :
    (c.acceptSeq opened.seq).Owes k cidLen log (SentRecord.payloads accepted ++
      if opened.contentType = ctApplicationData then [opened.content] else []) := by
  rw [h.serverApp, h.recvCidLen] at hopen
  have hsent := hrest.opened h.hint_mem hopen
  exact ⟨opened.sent :: accepted, h.accept hsent haccepts, SentRecord.payloads_cons _ _⟩

theorem Owes.walk (h : c.Owes k cidLen log due) {datagram : Bytes}
    (hunforged : Unforged a m k cidLen log datagram) :
    Walked.Finds a m k cidLen log due (c.walk a m datagram) := by
  refine Loop.run_induct (l := walkLoop a m)
    (fun st => st.2.2.Owes k cidLen log due ∧ Unforged a m k cidLen log st.2.1)
    (Walked.Finds a m k cidLen log due) ?_ ?_ _ ⟨h, hunforged⟩
  · rintro ⟨atHead, rest, c⟩ t ⟨⟨accepted, htook, rfl⟩, hrest⟩ hbody
    rcases walkLoop_cases (a := a) (m := m) atHead rest c with
      ⟨_, hleave, -⟩ | ⟨opened, hopen, hagain | ⟨haccepts, ⟨-, hleave⟩ | ⟨hother, hagain⟩⟩⟩
    · rw [hleave] at hbody
      cases hbody
    · rw [hagain] at hbody
      cases hbody
      exact ⟨⟨accepted, htook, rfl⟩, hrest.drop _⟩
    · rw [hleave] at hbody
      cases hbody
    · rw [hagain] at hbody
      cases hbody
      have howes := htook.accept_opened hrest hopen haccepts
      rw [if_neg hother, List.append_nil] at howes
      exact ⟨howes, hrest.drop _⟩
  · rintro ⟨atHead, rest, c⟩ r ⟨⟨accepted, htook, rfl⟩, hrest⟩ hbody
    rcases walkLoop_cases (a := a) (m := m) atHead rest c with
      ⟨_, hleave, rfl | rfl⟩ | ⟨opened, hopen, hagain | ⟨haccepts, ⟨happ, hleave⟩ | ⟨-, hagain⟩⟩⟩
    · rw [hleave] at hbody
      cases hbody
      exact ⟨accepted, htook, rfl⟩
    · rw [hleave] at hbody
      cases hbody
      exact ⟨accepted, htook, rfl⟩
    · rw [hagain] at hbody
      cases hbody
    · rw [hleave] at hbody
      cases hbody
      have howes := htook.accept_opened hrest hopen haccepts
      rw [if_pos happ] at howes
      obtain ⟨accepted', htook', hdue⟩ := howes
      exact ⟨accepted', htook', hdue, hrest.drop _⟩
    · rw [hagain] at hbody
      cases hbody

theorem Owes.withStash (h : c.Owes k cidLen log due) (stash : Bytes) :
    (c.withStash stash).Owes k cidLen log due := by
  obtain ⟨accepted, htook, hdue⟩ := h
  exact ⟨accepted, htook.withStash stash, hdue⟩

end DtlsReceiver

namespace DtlsLink
variable {ε : Type} {log : List SentRecord} {due : List Bytes} {s s' : DtlsLink ε}

/-- The client has accepted records with the payloads `due`, and nothing that is ahead of it is
forged. -/
structure Owes (a : AeadBackend) (m : Masker) (k : EpochKeys) (cidLen : Nat) (log : List SentRecord)
    (due : List Bytes) (s : DtlsLink ε) : Prop where
  client : s.client.Owes k cidLen log due
  stash : Unforged a m k cidLen log s.client.recvStash
  recvs : ∀ d : Datagram, .ok (some d) ∈ s.transport.recvs → Unforged a m k cidLen log d.val

theorem unforged_nil : Unforged a m k cidLen log [] := by
  intro rest hrest hint _ o ho
  rw [List.mem_tails, List.suffix_nil] at hrest
  subst hrest
  cases ho

theorem Owes.nextInput (h : s.Owes a m k cidLen log due) {reply : Except ε (Option Bytes)}
    (hnext : s.nextInput = some (reply, s')) :
    s'.Owes a m k cidLen log due ∧ s'.client.recvStash = [] ∧
      ∀ datagram, reply = .ok (some datagram) → Unforged a m k cidLen log datagram := by
  unfold DtlsLink.nextInput at hnext
  split at hnext
  · cases hnext
    refine ⟨⟨h.client.withStash [], unforged_nil, h.recvs⟩, rfl, ?_⟩
    rintro datagram ⟨⟩
    exact h.stash
  · rename_i hstash
    rw [ne_eq, not_not] at hstash
    simp only [Option.map_eq_some_iff, DatagramTransport.recv] at hnext
    obtain ⟨⟨r, t⟩, hrecv, hret⟩ := hnext
    split at hrecv
    · cases hrecv
    · rename_i hrecvs
      cases hrecv
      cases hret
      refine ⟨⟨h.client, h.stash, fun d hd => h.recvs d (hrecvs ▸ List.mem_cons_of_mem _ hd)⟩, hstash, ?_⟩
      intro datagram hreply
      rcases r with _ | _ | d
      · cases hreply
      · cases hreply
      · cases hreply
        exact h.recvs d (hrecvs ▸ List.mem_cons_self)

theorem Owes.resendFinished (h : s.Owes a m k cidLen log due) {reply : Except ε Unit}
    (hresend : s.resendFinished = some (reply, s')) : s'.Owes a m k cidLen log due := by
  obtain ⟨-, rfl⟩ | ⟨-, sends, rfl⟩ := resendFinished_eq_some hresend
  · exact h
  · obtain ⟨accepted, htook, hdue⟩ := h.client
    exact ⟨⟨accepted, ⟨htook.serverApp, htook.recvCidLen, ⟨htook.knows.tracks, htook.knows.hint⟩,
      htook.genuine, htook.once⟩, hdue⟩, h.stash, h.recvs⟩

/-- A call returns the payload that is due with it; only a buffer that is too short loses one. -/
theorem recv_owes (bufLen : Nat) :
    Program.Triple (Owes (ε := ε) a m k cidLen log due) (recv a m bufLen)
      (fun payload => Owes a m k cidLen log (due ++ payload.toList))
      (fun err s => s.Owes a m k cidLen log due ∧ err ≠ .bufferTooSmall ∨
        err = .bufferTooSmall ∧ ∃ lost, s.Owes a m k cidLen log (due ++ [lost])) := by
  refine .loop (fun _ => Owes a m k cidLen log due) (fun _ => ?_) ()
  intro s h r s' hexec
  dsimp only [recvBody] at hexec
  rw [recvPass, Program.exec_ofFun] at hexec
  split at hexec
  · cases hexec
  · rename_i hnext
    cases hexec
    exact .inl ⟨(h.nextInput hnext).1, by simp⟩
  · rename_i hnext
    cases hexec
    have howes := (h.nextInput hnext).1
    rw [← List.append_nil due] at howes
    exact howes
  · rename_i datagram s₁ hnext
    obtain ⟨howes, hstash, hunforged⟩ := h.nextInput hnext
    have hfinds := howes.client.walk (hunforged datagram rfl)
    have hkeep := s₁.client.walk_recvStash a m datagram
    generalize s₁.client.walk a m datagram = found at hfinds hkeep hexec
    obtain ⟨walked, client⟩ := found
    obtain ⟨accepted, htook, hfound⟩ := hfinds
    rw [hstash] at hkeep
    have hempty : Unforged a m k cidLen log client.recvStash := hkeep ▸ unforged_nil
    cases walked with
    | ended =>
      cases hexec
      exact ⟨⟨accepted, htook, hfound⟩, hempty, howes.recvs⟩
    | finishedWanted =>
      have howes' : (⟨client, s₁.transport⟩ : DtlsLink ε).Owes a m k cidLen log due :=
        ⟨⟨accepted, htook, hfound⟩, hempty, howes.recvs⟩
      simp only [Option.map_eq_some_iff] at hexec
      obtain ⟨⟨reply, s₂⟩, hresend, hret⟩ := hexec
      cases reply with
      | error err =>
        cases hret
        exact .inl ⟨howes'.resendFinished hresend, by simp⟩
      | ok _ =>
        cases hret
        exact howes'.resendFinished hresend
    | delivered content rest =>
      obtain ⟨hdue, hrest⟩ := hfound
      dsimp only at hexec
      split at hexec
      · cases hexec
        exact .inr ⟨rfl, content, ⟨accepted, htook, hdue⟩, hempty, howes.recvs⟩
      · cases hexec
        exact ⟨⟨accepted, htook.withStash rest, hdue⟩, hrest, howes.recvs⟩

def payloadOf : Except (DtlsClientError ε) (Option Bytes) → List Bytes
  | .ok payload => payload.toList
  | .error _ => []

def isTooSmall : Except (DtlsClientError ε) (Option Bytes) → Bool
  | .error .bufferTooSmall => true
  | _ => false

def returned (results : List (Except (DtlsClientError ε) (Option Bytes))) : List Bytes :=
  results.flatMap payloadOf

/-- The number of calls that have failed for want of room. -/
def tooSmall (results : List (Except (DtlsClientError ε) (Option Bytes))) : Nat :=
  results.countP isTooSmall

theorem returned_cons (result : Except (DtlsClientError ε) (Option Bytes))
    (later : List (Except (DtlsClientError ε) (Option Bytes))) :
    returned (result :: later) = payloadOf result ++ returned later := rfl

theorem Owes.recvAll (h : s.Owes a m k cidLen log due) (bufLens : List Nat)
    {results : List (Except (DtlsClientError ε) (Option Bytes))}
    (hrun : s.recvAll a m bufLens = some (results, s')) :
    ∃ new, s'.Owes a m k cidLen log (due ++ new) ∧ List.Sublist (returned results) new ∧
      new.length = (returned results).length + tooSmall results := by
  induction bufLens generalizing s due results with
  | nil =>
    cases hrun
    exact ⟨[], by rwa [List.append_nil], List.Sublist.refl _, rfl⟩
  | cons bufLen bufLens ih =>
    rw [DtlsLink.recvAll] at hrun
    split at hrun
    · cases hrun
    · rename_i result s₁ hexec
      simp only [Option.map_eq_some_iff] at hrun
      obtain ⟨⟨later, s₂⟩, hlater, hret⟩ := hrun
      cases hret
      have hcall := recv_owes bufLen s h result s₁ hexec
      cases result with
      | ok payload =>
        obtain ⟨new, howes, hsub, hlen⟩ := ih hcall hlater
        have hsmall : tooSmall (.ok payload :: later) = tooSmall later :=
          List.countP_cons_of_neg Bool.false_ne_true
        refine ⟨payload.toList ++ new, by rwa [← List.append_assoc],
          (List.Sublist.refl _).append hsub, ?_⟩
        rw [returned_cons, hsmall, List.length_append, List.length_append, hlen, Nat.add_assoc]
        rfl
      | error err =>
        rw [returned_cons, payloadOf, List.nil_append]
        rcases hcall with ⟨howes, hother⟩ | ⟨rfl, lost, howes⟩
        · obtain ⟨new, howes, hsub, hlen⟩ := ih howes hlater
          have hsmall : tooSmall (.error err :: later) = tooSmall later :=
            List.countP_cons_of_neg (by cases err <;> simp_all [isTooSmall])
          exact ⟨new, howes, hsub, by rw [hsmall, hlen]⟩
        · obtain ⟨new, howes, hsub, hlen⟩ := ih howes hlater
          have hsmall : tooSmall (.error .bufferTooSmall :: later) = tooSmall later + 1 :=
            List.countP_cons_of_pos rfl
          refine ⟨lost :: new, ?_, hsub.cons lost, ?_⟩
          · rwa [List.append_assoc] at howes
          · rw [hsmall, List.length_cons, hlen, Nat.add_assoc]

/-- Whatever datagrams a client gets after the handshake, and with whatever buffers it is called: as
long as nothing in them is forged, that is, only records of `log` open, it has accepted records of
`log` with different numbers, and refuses these from then on; the payloads it has returned are the
application data of those records, in the order in which they were accepted, without those that a
call with too short a buffer has dropped, one for each such call. -/
theorem recvAll_genuine_once {cid : Option Bytes} (hfresh : s.client.Fresh k cid)
    (log : List SentRecord)
    (hunforged : ∀ d : Datagram, .ok (some d) ∈ s.transport.recvs →
      Unforged a m k s.client.recvCidLen log d.val)
    (bufLens : List Nat) {results : List (Except (DtlsClientError ε) (Option Bytes))}
    (hrun : s.recvAll a m bufLens = some (results, s')) :
    ∃ accepted : List SentRecord, accepted ⊆ log ∧ (accepted.map SentRecord.seq).Nodup ∧
      (∀ r ∈ accepted, s'.client.serverReplay.accepts r.seq = false) ∧
      List.Sublist (returned results) (SentRecord.payloads accepted) ∧
      (SentRecord.payloads accepted).length = (returned results).length + tooSmall results := by
  have howes : s.Owes a m k s.client.recvCidLen log [] := by
    refine ⟨⟨[], ⟨hfresh.serverApp, rfl, ⟨?_, hfresh.hint⟩, List.nil_subset _, List.nodup_nil⟩, rfl⟩,
      hfresh.stash ▸ unforged_nil, hunforged⟩
    rw [hfresh.replay]
    exact .new
  obtain ⟨new, hafter, hsub, hlen⟩ := howes.recvAll bufLens hrun
  obtain ⟨accepted, htook, rfl⟩ := hafter.client
  refine ⟨accepted, htook.genuine, htook.once, fun r hr => ?_, hsub, hlen⟩
  exact htook.refuses hr

end DtlsLink

namespace Sample

/-- What the server has sealed: two payloads and a ticket. -/
def sentRecords : List SentRecord :=
  [first, second, ticket].map fun r => ⟨r.seq, r.contentType, r.content⟩

/-- Both payloads, cut short and whole, a record with a flipped bit, and both payloads again, out of
order. -/
def attacked : List Datagram :=
  [⟨first.wire.take 20, by decide +kernel⟩, ⟨first.wire.set 10 0xFF, by decide +kernel⟩,
    ⟨second.wire ++ first.wire.take 20, by decide +kernel⟩, ⟨first.wire ++ second.wire, by decide +kernel⟩,
    ⟨second.wire ++ first.wire, by decide +kernel⟩]

def attackedLink : DtlsLink Unit where
  client := receiver
  transport := { recvs := attacked.map (.ok <| some ·) ++ [.ok none] }

end Sample

/-- The second payload is lost to a short buffer, the first is returned; the copies give nothing. -/
theorem DtlsLink.recvAll_genuine_once_attacked :
    ∃ results s', Sample.attackedLink.recvAll AeadBackend.clear DtlsClient.sampleMasker [0, 64, 64] =
        some (results, s') ∧
      results = [.error .bufferTooSmall, .ok (some [1, 2]), .ok none] ∧
      ∃ accepted, accepted ⊆ Sample.sentRecords ∧ (accepted.map SentRecord.seq).Nodup ∧
        (SentRecord.payloads accepted).length = 2 := by
  have hfresh : Sample.attackedLink.client.Fresh Sample.receiver.serverApp none :=
    ⟨rfl, rfl, by decide, rfl, rfl, rfl⟩
  have hunforged : ∀ d : Datagram, .ok (some d) ∈ Sample.attackedLink.transport.recvs →
      Unforged AeadBackend.clear DtlsClient.sampleMasker Sample.receiver.serverApp 0
        Sample.sentRecords d.val := by
    have hall : ∀ d ∈ Sample.attacked, Unforged AeadBackend.clear DtlsClient.sampleMasker
        Sample.receiver.serverApp 0 Sample.sentRecords d.val := by decide +kernel
    intro d hd
    refine hall d ?_
    simpa [Sample.attackedLink] using hd
  have hresults : (Sample.attackedLink.recvAll AeadBackend.clear DtlsClient.sampleMasker
      [0, 64, 64]).map Prod.fst = some [.error .bufferTooSmall, .ok (some [1, 2]), .ok none] := by
    decide +kernel
  obtain ⟨⟨results, s'⟩, hrun, rfl⟩ := Option.map_eq_some_iff.mp hresults
  obtain ⟨accepted, hgenuine, honce, -, -, hlen⟩ :=
    recvAll_genuine_once hfresh Sample.sentRecords hunforged [0, 64, 64] hrun
  exact ⟨_, s', hrun, rfl, accepted, hgenuine, honce, hlen⟩

end KrabiTls.Dtls
