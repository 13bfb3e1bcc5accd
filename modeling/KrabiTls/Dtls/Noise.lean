import KrabiTls.Dtls.Handshake

/-! What a stray datagram in front of the `ServerHello` does to a handshake. -/
namespace KrabiTls.Dtls
open Lib

variable {ε : Type} {cfg : DtlsConfig} {args : ConnectArgs cfg}
variable {d : Datagram}

/-- What `connect` takes a datagram for while it waits for a hello. -/
def helloKind (ε : Type) (datagram : Datagram) : Except (DtlsClientError ε) ServerHelloKind := do
  let (body, _, _) ← parseHelloBody datagram.val
  (parseServerHello body).mapError fun _ => .handshake

def IsServerHello (ε : Type) (datagram : Datagram) : Prop :=
  ∃ suite share cid, helloKind ε datagram = .ok (.hello suite share cid)

def IsRetryRequest (ε : Type) (datagram : Datagram) : Prop :=
  ∃ suite cookie, helloKind ε datagram = .ok (.retry suite cookie)

/-- No plaintext handshake record can be read at the front of the datagram. -/
def Unparseable (ε : Type) (datagram : Datagram) : Prop :=
  ∃ e, parseHelloBody (ε := ε) datagram.val = .error e

theorem IsServerHello.not_retry (h : IsServerHello ε d) : ¬ IsRetryRequest ε d := by
  rintro ⟨_, _, hretry⟩
  obtain ⟨_, _, _, hhello⟩ := h
  cases hretry.symm.trans hhello

theorem helloKind_of_unparseable (h : Unparseable ε d) :
    ¬ IsServerHello ε d ∧ ¬ IsRetryRequest ε d := by
  obtain ⟨e, h⟩ := h
  have hkind : helloKind ε d = .error e := by
    rw [helloKind, h]
    rfl
  constructor
  · rintro ⟨_, _, _, hhello⟩
    cases hkind.symm.trans hhello
  · rintro ⟨_, _, hretry⟩
    cases hkind.symm.trans hretry

def datagrams (replies : List (Except ε (Option Datagram))) : List Datagram :=
  replies.filterMap fun reply => reply.toOption.bind id

theorem datagrams_append (replies more : List (Except ε (Option Datagram))) :
    datagrams (replies ++ more) = datagrams replies ++ datagrams more := List.filterMap_append

theorem mem_datagrams {replies : List (Except ε (Option Datagram))} :
    d ∈ datagrams replies ↔ .ok (some d) ∈ replies := by
  simp only [datagrams, List.mem_filterMap]
  constructor
  · rintro ⟨_ | reply, hmem, hd⟩
    · cases hd
    · cases hd
      exact hmem
  · intro h
    exact ⟨_, h, rfl⟩

theorem datagrams_answered {flight : Bytes} {t t' : DatagramTransport ε} {reply : Datagram}
    (h : Answered flight t reply t') : datagrams t.recvs = reply :: datagrams t'.recvs := by
  obtain ⟨timeouts, hrecvs, _⟩ := h
  have hsilent : datagrams (List.replicate timeouts (.ok none : Except ε (Option Datagram))) = [] := by
    rw [datagrams, List.filterMap_replicate_of_none rfl]
  rw [hrecvs, datagrams_append, hsilent]
  rfl

/-- The datagrams begin with a `ServerHello`, or with a `HelloRetryRequest` and a `ServerHello`. -/
inductive Opens (ε : Type) : List Datagram → Prop
  | direct {sh : Datagram} {rest : List Datagram} (hello : IsServerHello ε sh) : Opens ε (sh :: rest)
  | retry {hrr sh : Datagram} {rest : List Datagram} (request : IsRetryRequest ε hrr)
      (hello : IsServerHello ε sh) : Opens ε (hrr :: sh :: rest)

theorem helloKind_eq_ok {body : Bytes} {seq trailing : Nat} {kind : ServerHelloKind}
    (hbody : parseHelloBody (ε := ε) d.val = .ok (body, seq, trailing))
    (hkind : parseServerHello body = .ok kind) : helloKind ε d = .ok kind := by
  rw [helloKind, hbody]
  exact mapError_eq_ok.mpr hkind

/-- A handshake only succeeds if the first datagrams are the ones it waits for. -/
theorem opens_of_connect {t t' : DatagramTransport ε} {client : Established}
    (h : (connect args).exec t = some (.ok client, t')) : Opens ε (datagrams t.recvs) := by
  simp only [connect, Program.exec_bind_eq_ok, Program.exec_ofExcept_eq_ok] at h
  obtain ⟨⟨secret, pubKey⟩, _, ⟨hgen, rfl⟩, x, t₁, hx, sh, _, ⟨hsh, rfl⟩, _⟩ := h
  have hhellos := hellos_of_exchange hgen hx hsh
  generalize sh.transcript.fed = transcript, x.reply = reply at hhellos
  cases hhellos with
  | direct _ _ _ answered framed hello =>
    rw [datagrams_answered answered]
    exact .direct ⟨_, _, _, helloKind_eq_ok framed hello⟩
  | retry _ _ _ answered hrrFramed hrr _ _ _ answered' framed hello =>
    rw [datagrams_answered answered, datagrams_answered answered']
    exact .retry ⟨_, _, helloKind_eq_ok hrrFramed hrr⟩ ⟨_, _, _, helloKind_eq_ok framed hello⟩

/-- Until the `ServerHello` comes, there was nothing but, perhaps, a `HelloRetryRequest`. -/
theorem Opens.before {ds rest : List Datagram} (h : Opens ε (ds ++ rest))
    (hds : ∀ d ∈ ds, ¬ IsServerHello ε d) : ds = [] ∨ ∃ hrr, ds = [hrr] := by
  match ds, h, hds with
  | [], _, _ => exact .inl rfl
  | [hrr], _, _ => exact .inr ⟨hrr, rfl⟩
  | d :: d' :: ds, h, hds =>
    cases h with
    | direct hello => exact absurd hello (hds d (by simp))
    | retry _ hello => exact absurd hello (hds d' (by simp))

/-- A datagram that answers no flight: it cannot be read, or it is a copy of a `HelloRetryRequest`
that came in `before`. -/
def Stray (before : List (Except ε (Option Datagram))) (d : Datagram) : Prop :=
  Unparseable ε d ∨ IsRetryRequest ε d ∧ .ok (some d) ∈ before

/-- The stray datagram is taken for the reply to a flight. -/
theorem not_opens_of_stray {before : List (Except ε (Option Datagram))} {ds : List Datagram}
    (hbefore : ∀ d ∈ datagrams before, ¬ IsServerHello ε d) (hstray : Stray before d) :
    ¬ Opens ε (datagrams before ++ d :: ds) := by
  intro h
  have hnoHello : ¬ IsServerHello ε d := by
    obtain hunparseable | ⟨hretry, _⟩ := hstray
    · exact (helloKind_of_unparseable hunparseable).1
    · exact fun hhello => hhello.not_retry hretry
  obtain hnone | ⟨hrr, hone⟩ := h.before hbefore
  · -- it is the first reply
    have hnoRetry : ¬ IsRetryRequest ε d := by
      obtain hunparseable | ⟨_, hmem⟩ := hstray
      · exact (helloKind_of_unparseable hunparseable).2
      · rw [← mem_datagrams, hnone] at hmem
        cases hmem
    rw [hnone] at h
    cases h with
    | direct hello => exact hnoHello hello
    | retry request _ => exact hnoRetry request
  · -- it is the reply to the second `ClientHello`
    rw [hone] at h hbefore
    cases h with
    | direct hello => exact hbefore hrr (by simp) hello
    | retry _ hello => exact hnoHello hello

/-- The run with `noise` arriving between `before` and `after`. -/
def withNoise (t : DatagramTransport ε) (before after : List (Except ε (Option Datagram)))
    (noise : List Datagram) : DatagramTransport ε :=
  { t with recvs := before ++ noise.map (fun d => .ok (some d)) ++ after }

/-- A handshake that succeeds still does so with stray datagrams in front of its `ServerHello` only if
there are none of them. -/
theorem connect_withNoise_iff {t t' : DatagramTransport ε} {client : Established}
    {before after : List (Except ε (Option Datagram))} {noise : List Datagram}
    (h : (connect args).exec t = some (.ok client, t')) (hrecvs : t.recvs = before ++ after)
    (hearly : ∀ d ∈ datagrams before, ¬ IsServerHello ε d) (hstray : ∀ d ∈ noise, Stray before d) :
    (∃ client' t'', (connect args).exec (withNoise t before after noise) = some (.ok client', t'')) ↔
      noise = [] := by
  constructor
  · rintro ⟨client', t'', hnoisy⟩
    cases noise with
    | nil => rfl
    | cons d ds =>
      have hopens := opens_of_connect hnoisy
      simp only [withNoise, datagrams_append, List.append_assoc] at hopens
      exact absurd hopens (not_opens_of_stray hearly (hstray d (by simp)))
  · rintro rfl
    have hsame : withNoise t before after [] = t := by
      simp [withNoise, ← hrecvs]
    exact ⟨client, t', hsame ▸ h⟩

namespace Sample

/-- A `HelloRetryRequest` with a cookie of one byte. -/
def retryRequest : Bytes :=
  toBe 2 dtls12LegacyVersion ++ hrrRandom ++ [0] ++ toBe 2 cipherAes128GcmSha256 ++ [0] ++ toBe 2 13 ++
    (toBe 2 extSupportedVersions ++ toBe 2 2 ++ toBe 2 dtls13Version) ++
    (toBe 2 extCookie ++ toBe 2 3 ++ toBe 2 1 ++ [42])

def retryDatagram : Bytes :=
  [ctHandshake] ++ toBe 2 dtls12LegacyVersion ++ toBe 2 0 ++ toBe 6 0 ++ toBe 2 (12 + 53) ++
    [hsServerHello] ++ toBe 3 53 ++ toBe 2 0 ++ toBe 3 0 ++ toBe 3 53 ++ retryRequest

def ch2 : Bytes :=
  (clientHello (ε := Unit) connectArgs ⟨List.replicate 32 5, random_length⟩ (some [42])).toOption.getD []

/-- The transcript of a handshake with a `HelloRetryRequest`. -/
def retryTranscript : Bytes :=
  hrrMessageHashHeader ++ (hashOf (hsMessage hsClientHello ch1)).val ++
    hsMessage hsServerHello retryRequest ++ hsMessage hsClientHello ch2 ++
    hsMessage hsServerHello sampleHello

/-- A server that asks for a second `ClientHello`. -/
def retrying : DatagramTransport Unit :=
  answering [retryDatagram, sampleHelloDatagram, flightAfter [0, 0] retryTranscript]

/-- Whether the handshake returned, and the error it failed with. -/
def outcome (t : DatagramTransport Unit) : Option (Option (DtlsClientError Unit)) :=
  ((connect connectArgs).exec t).map fun (result, _) =>
    match result with
    | .ok _ => none
    | .error e => some e

def duplicated : DatagramTransport Unit :=
  withNoise retrying (retrying.recvs.take 1) (retrying.recvs.drop 1) [asDatagram retryDatagram]

def disturbed : DatagramTransport Unit :=
  withNoise retrying [] retrying.recvs [asDatagram []]

theorem retry_stray : IsRetryRequest Unit (asDatagram retryDatagram) :=
  ⟨cipherAes128GcmSha256, [42], by decide +kernel⟩

theorem retrying_returns :
    ∃ client t', (connect connectArgs).exec retrying = some (.ok client, t') := by
  have hreturns : ((connect connectArgs).exec retrying).any (·.1.toBool) = true := by
    decide +kernel
  obtain ⟨⟨_ | client, t'⟩, hexec, hok⟩ := (Option.any_eq_true _ _).mp hreturns
  · cases hok
  · exact ⟨client, t', hexec⟩

end Sample

theorem connect_withNoise_fails :
    Sample.outcome Sample.retrying = some none ∧
      (Stray (Sample.retrying.recvs.take 1) (Sample.asDatagram Sample.retryDatagram) ∧
        Sample.outcome Sample.duplicated = some (some .handshake)) ∧
      (Stray (ε := Unit) [] (Sample.asDatagram []) ∧
        Sample.outcome Sample.disturbed = some (some .protocol)) := by
  obtain ⟨client, t', hreturns⟩ := Sample.retrying_returns
  refine ⟨by rw [Sample.outcome, hreturns]; rfl, ⟨.inr ⟨Sample.retry_stray, ?_⟩, by decide +kernel⟩,
    ⟨.inl ⟨.protocol, ?_⟩, by decide +kernel⟩⟩
  · exact List.mem_singleton_self _
  · decide +kernel

theorem connect_withNoise_duplicated :
    ¬ ∃ client t', (connect Sample.connectArgs).exec Sample.duplicated = some (.ok client, t') := by
  obtain ⟨client, t', hexec⟩ := Sample.retrying_returns
  have hearly : ∀ d ∈ datagrams (Sample.retrying.recvs.take 1), ¬ IsServerHello Unit d := by
    intro d hd hhello
    obtain rfl := List.mem_singleton.mp hd
    exact hhello.not_retry Sample.retry_stray
  have hstray : ∀ d ∈ [Sample.asDatagram Sample.retryDatagram],
      Stray (Sample.retrying.recvs.take 1) d := by
    intro d hd
    obtain rfl := List.mem_singleton.mp hd
    exact .inr ⟨Sample.retry_stray, List.mem_singleton_self _⟩
  have hiff := connect_withNoise_iff hexec (List.take_append_drop 1 _).symm hearly hstray
  exact mt hiff.mp (by simp)

end KrabiTls.Dtls
