import KrabiTls.Connection
import KrabiTls.Lib.Prefixed

/-! The framing of the handshake messages the parsers accept: what was accepted is the messages, end
to end, with nothing before, between or behind them. -/
namespace KrabiTls
open Lib

/-- A message of the given type: the header's 24-bit length is that of the body. -/
structure IsMessage (msgType : UInt8) (msg body : Bytes) : Prop where
  eq : msg = hsMessage msgType body
  bound : body.length < 2 ^ 24

theorem hsMessage_length (msgType : UInt8) (body : Bytes) :
    (hsMessage msgType body).length = 4 + body.length := by
  simp only [hsMessage, List.length_append, List.length_cons, toBe_length]

/-- The header and the body cut out of a buffer are what stands at its front. -/
theorem hsMessage_slices {buf : Bytes} {len : Nat} (hlen : ofBe (slice buf 1 4) = len)
    (hfits : 4 + len ≤ buf.length) :
    IsMessage (buf.headD 0) (buf.take (4 + len)) (slice buf 4 (4 + len)) := by
  have hfront : (slice buf 1 4).length = 3 := slice_length_of_le (by omega)
  have hbody : (slice buf 4 (4 + len)).length = len := by
    rw [slice_length_of_le hfits]
    omega
  have hbe : toBe 3 len = slice buf 1 4 := by
    rw [← hfront, ← hlen]
    exact toBe_ofBe _
  constructor
  · obtain ⟨t, rest, rfl⟩ := List.exists_cons_of_ne_nil
      (List.length_pos_iff.mp (show 0 < buf.length by omega))
    have hfour : 4 + len = (3 + len) + 1 := by omega
    rw [hsMessage, hbody, hbe, List.cons_append, ← slice_split (by omega) (by omega), hfour,
      List.take_succ_cons]
    rfl
  · have hlt := ofBe_lt (slice buf 1 4)
    rw [hfront, hlen] at hlt
    rw [hbody]
    exact hlt

theorem nextMsg_framed {buf : Bytes} {msg : HsMsg} (h : nextMsg buf = .ok msg) :
    IsMessage msg.msgType msg.full msg.body ∧ buf = msg.full ++ msg.rest := by
  obtain ⟨len, hlen, hfits, rfl⟩ := nextMsg_cut h
  exact ⟨hsMessage_slices hlen hfits, (List.take_append_drop _ _).symm⟩

/-- A handshake message; the body's length fits the header's 24 bits. -/
structure Message where
  msgType : UInt8
  body : Bytes
  bound : body.length < 2 ^ 24
  deriving DecidableEq

namespace Message

def encode (m : Message) : Bytes :=
  hsMessage m.msgType m.body

theorem encode_length (m : Message) : m.encode.length = 4 + m.body.length :=
  hsMessage_length m.msgType m.body

end Message

theorem nextMsg_encode (m : Message) (rest : Bytes) :
    nextMsg (m.encode ++ rest) = .ok ⟨m.msgType, m.body, m.encode, rest⟩ := by
  have hlength := m.encode_length
  have hcons : m.encode ++ rest = m.msgType :: (toBe 3 m.body.length ++ (m.body ++ rest)) := by
    rw [Message.encode, hsMessage, List.cons_append, List.cons_append, List.append_assoc]
  have hslice : slice (m.encode ++ rest) 1 4 = toBe 3 m.body.length := by
    rw [hcons]
    exact List.take_left' (toBe_length _ _)
  have hlen : ofBe (slice (m.encode ++ rest) 1 4) = m.body.length := by
    rw [hslice, ofBe_toBe]
    exact Nat.mod_eq_of_lt m.bound
  have hbody : slice (m.encode ++ rest) 4 (4 + m.body.length) = m.body := by
    have hdrop : (m.encode ++ rest).drop 4 = m.body ++ rest := by
      rw [hcons]
      exact List.drop_left' (toBe_length _ _)
    rw [slice, hdrop, Nat.add_sub_cancel_left, List.take_left' rfl]
  unfold nextMsg
  rw [if_neg (by rw [List.length_append]; omega)]
  dsimp only
  rw [hlen, if_neg (by rw [List.length_append]; omega), hbody, List.take_left' hlength,
    List.drop_left' hlength, hcons]
  rfl

theorem nextMsg_eq_ok {buf : Bytes} {msg : HsMsg} (h : nextMsg buf = .ok msg) :
    ∃ m : Message, buf = m.encode ++ msg.rest ∧ msg = ⟨m.msgType, m.body, m.encode, msg.rest⟩ := by
  obtain ⟨hmsg, hbuf⟩ := nextMsg_framed h
  let m : Message := ⟨msg.msgType, msg.body, hmsg.bound⟩
  have hfull : m.encode = msg.full := hmsg.eq.symm
  exact ⟨m, by rw [hfull, ← hbuf], by rw [hfull]⟩

namespace Message

theorem encode_append_inj {m m' : Message} {rest rest' : Bytes}
    (h : m.encode ++ rest = m'.encode ++ rest') : m = m' ∧ rest = rest' := by
  have hnext := nextMsg_encode m rest
  rw [h, nextMsg_encode, Except.ok.injEq, HsMsg.mk.injEq] at hnext
  obtain ⟨htype, hbody, -, hrest⟩ := hnext
  exact ⟨(Message.mk.injEq ..).mpr ⟨htype.symm, hbody.symm⟩, hrest.symm⟩

/-- A byte string is a sequence of messages in one way only. -/
theorem flatMap_encode_inj {msgs msgs' : List Message}
    (h : msgs.flatMap encode = msgs'.flatMap encode) : msgs = msgs' := by
  induction msgs generalizing msgs' with
  | nil =>
    cases msgs' with
    | nil => rfl
    | cons m' msgs' =>
      have hlen := congrArg List.length h
      rw [List.flatMap_cons, List.length_append, m'.encode_length] at hlen
      simp only [List.flatMap_nil, List.length_nil] at hlen
      omega
  | cons m msgs ih =>
    cases msgs' with
    | nil =>
      have hlen := congrArg List.length h
      rw [List.flatMap_cons, List.length_append, m.encode_length] at hlen
      simp only [List.flatMap_nil, List.length_nil] at hlen
      omega
    | cons m' msgs' =>
      rw [List.flatMap_cons, List.flatMap_cons] at h
      obtain ⟨rfl, hrest⟩ := encode_append_inj h
      rw [ih hrest]

end Message

theorem expectMsg_framed {expected : UInt8} {buf : Bytes} {msg : HsMsg}
    (h : expectMsg expected buf = .ok msg) :
    IsMessage expected msg.full msg.body ∧ buf = msg.full ++ msg.rest := by
  obtain ⟨msg', hnext, h⟩ := bind_eq_ok.mp h
  split at h
  · rename_i htype
    cases h
    rw [← htype]
    exact nextMsg_framed hnext
  · cases h

theorem takeCertRequest_framed {buf rest : Bytes} {certRequestFull : Option Bytes}
    (h : takeCertRequest buf = .ok (certRequestFull, rest)) :
    (∀ creq ∈ certRequestFull, ∃ body, IsMessage hsCertificateRequest creq body) ∧
      buf = certRequestFull.getD [] ++ rest := by
  obtain ⟨msg, hnext, h⟩ := bind_eq_ok.mp h
  split at h
  · rename_i htype
    cases h
    obtain ⟨hmsg, hbuf⟩ := nextMsg_framed hnext
    rw [htype] at hmsg
    exact ⟨by simpa using ⟨_, hmsg⟩, hbuf⟩
  · cases h
    exact ⟨by simp, rfl⟩

/-- The bytes of an accepted flight are its messages, end to end. -/
structure ServerFlightView.FramedIn (flight : ServerFlightView) (bytes : Bytes) : Prop where
  ee : ∃ body, IsMessage hsEncryptedExtensions flight.eeFull body
  certRequest : ∀ creq ∈ flight.certRequestFull, ∃ body, IsMessage hsCertificateRequest creq body
  cert : IsMessage hsCertificate flight.certFull flight.certBody
  certificateVerify : IsMessage hsCertificateVerify flight.cvFull flight.cvBody
  finished : IsMessage hsFinished flight.finFull flight.finBody
  bytes : bytes = flight.eeFull ++ flight.certRequestFull.getD [] ++ flight.certFull ++
    flight.cvFull ++ flight.finFull

theorem parseServerFlight_framed {bytes : Bytes} {flight : ServerFlightView}
    (h : parseServerFlight bytes = .ok flight) : flight.FramedIn bytes := by
  obtain ⟨ee, hee, h⟩ := bind_eq_ok.mp h
  obtain ⟨⟨certRequestFull, rest⟩, hrequest, h⟩ := bind_eq_ok.mp h
  obtain ⟨cert, hcert, h⟩ := bind_eq_ok.mp h
  obtain ⟨cv, hcv, h⟩ := bind_eq_ok.mp h
  obtain ⟨fin, hfin, h⟩ := bind_eq_ok.mp h
  split at h
  · cases h
  · rename_i hrest
    cases h
    obtain ⟨heeMsg, heeBytes⟩ := expectMsg_framed hee
    obtain ⟨hrequestMsg, hrequestBytes⟩ := takeCertRequest_framed hrequest
    obtain ⟨hcertMsg, hcertBytes⟩ := expectMsg_framed hcert
    obtain ⟨hcvMsg, hcvBytes⟩ := expectMsg_framed hcv
    obtain ⟨hfinMsg, hfinBytes⟩ := expectMsg_framed hfin
    refine ⟨⟨_, heeMsg⟩, hrequestMsg, hcertMsg, hcvMsg, hfinMsg, ?_⟩
    rw [heeBytes, hrequestBytes, hcertBytes, hcvBytes, hfinBytes, not_not.mp hrest]
    simp only [List.append_assoc, List.append_nil]

namespace Reader

variable {b : Bytes} {n : Nat} {r rest : Reader}
variable {v : Nat}

theorem take_eq_ok (h : take r n = .ok (b, rest)) : r = b ++ rest := by
  unfold take at h
  split at h
  · cases h
  · cases h
    exact (List.take_append_drop _ _).symm

theorem u8_eq_ok {b : UInt8} (h : u8 r = .ok (b, rest)) : r = b :: rest := by
  obtain ⟨⟨bytes, r'⟩, htake, hout⟩ := bind_eq_ok.mp h
  cases hout
  have hr := take_eq_ok htake
  obtain ⟨b, rfl⟩ := List.length_eq_one_iff.mp (take_length htake).1
  exact hr

theorem uint_eq_ok (h : uint r n = .ok (v, rest)) : r = toBe n v ++ rest := by
  obtain ⟨⟨bytes, r'⟩, htake, hout⟩ := bind_eq_ok.mp h
  cases hout
  have hlen := (take_length htake).1
  rw [take_eq_ok htake, ← hlen, toBe_ofBe]

theorem uint_lt (h : uint r n = .ok (v, rest)) : v < 256 ^ n := by
  obtain ⟨⟨bytes, r'⟩, htake, hout⟩ := bind_eq_ok.mp h
  cases hout
  have hlen := (take_length htake).1
  rw [← hlen]
  exact ofBe_lt bytes

theorem vec_eq_ok (h : vec r n = .ok (b, rest)) :
    r = toBe n b.length ++ b ++ rest ∧ b.length < 256 ^ n := by
  obtain ⟨⟨len, r'⟩, huint, htake⟩ := bind_eq_ok.mp h
  obtain rfl := (take_length htake).1
  rw [uint_eq_ok huint, take_eq_ok htake, List.append_assoc]
  exact ⟨rfl, uint_lt huint⟩

theorem take_append (b r : Bytes) : take (b ++ r) b.length = .ok (b, r) := by
  rw [Reader.take, if_neg (by simp), List.take_left, List.drop_left]

theorem u8_cons (b : UInt8) (r : Bytes) : u8 (b :: r) = .ok (b, r) := rfl

theorem uint_toBe (h : v < 256 ^ n) (r : Bytes) : Reader.uint (toBe n v ++ r) n = .ok (v, r) := by
  have htake := take_append (toBe n v) r
  rw [toBe_length] at htake
  rw [Reader.uint, htake]
  simp [bind, Except.bind, pure, Except.pure, ofBe_toBe, Nat.mod_eq_of_lt h]

theorem vec_toBe (h : b.length < 256 ^ n) (r : Bytes) :
    Reader.vec (toBe n b.length ++ (b ++ r)) n = .ok (b, r) := by
  rw [Reader.vec, uint_toBe h]
  exact take_append b r

theorem take_eq_ok_iff : take r n = .ok (b, rest) ↔ r = b ++ rest ∧ b.length = n := by
  constructor
  · exact fun h => ⟨take_eq_ok h, (take_length h).1⟩
  · rintro ⟨rfl, rfl⟩
    exact take_append b rest

theorem u8_eq_ok_iff {b : UInt8} : u8 r = .ok (b, rest) ↔ r = b :: rest := by
  constructor
  · exact u8_eq_ok
  · rintro rfl
    rfl

theorem uint_eq_ok_iff : uint r n = .ok (v, rest) ↔ r = toBe n v ++ rest ∧ v < 256 ^ n := by
  constructor
  · exact fun h => ⟨uint_eq_ok h, uint_lt h⟩
  · rintro ⟨rfl, hv⟩
    exact uint_toBe hv rest

theorem vec_eq_ok_iff :
    vec r n = .ok (b, rest) ↔ r = prefixed n b ++ rest ∧ b.length < 256 ^ n := by
  constructor
  · exact vec_eq_ok
  · rintro ⟨rfl, hb⟩
    rw [prefixed, List.append_assoc]
    exact vec_toBe hb rest

end Reader

/-- An accepted `ServerHello` record is one message behind an exact record header. -/
theorem parseServerHello_framed {f : Features} {record : Bytes} {sh : ServerHelloView}
    (h : parseServerHello f record = .ok sh) :
    ∃ body, record = helloRecord hsServerHello body ∧ 4 + body.length < 2 ^ 16 := by
  unfold parseServerHello at h
  obtain ⟨⟨contentType, r⟩, htype, h⟩ := bind_eq_ok.mp h
  obtain ⟨hct, h⟩ := throwIf_eq_ok.mp h
  obtain ⟨⟨version, r₁⟩, hversion, h⟩ := bind_eq_ok.mp h
  obtain ⟨hlegacy, h⟩ := throwIf_eq_ok.mp h
  obtain ⟨⟨recordBody, r₂⟩, hbody, h⟩ := bind_eq_ok.mp h
  obtain ⟨hend, h⟩ := throwIf_eq_ok.mp h
  obtain ⟨⟨hsType, hr⟩, hhsType, h⟩ := bind_eq_ok.mp h
  obtain ⟨hhello, h⟩ := throwIf_eq_ok.mp h
  obtain ⟨⟨body, hr₁⟩, hmsg, h⟩ := bind_eq_ok.mp h
  obtain ⟨hhsEnd, h⟩ := throwIf_eq_ok.mp h
  rw [not_not] at hct hlegacy hend hhello hhsEnd
  subst hct hlegacy hend hhello hhsEnd
  obtain ⟨hrecord, hbound⟩ := Reader.vec_eq_ok hbody
  have hmessage : recordBody = hsMessage hsServerHello body := by
    rw [Reader.u8_eq_ok hhsType, (Reader.vec_eq_ok hmsg).1, List.append_nil]
    rfl
  have hlen := hsMessage_length hsServerHello body
  rw [hmessage, hlen] at hbound
  refine ⟨body, ?_, hbound⟩
  rw [Reader.u8_eq_ok htype, Reader.uint_eq_ok hversion, hrecord, hmessage, hlen, helloRecord]
  simp only [List.append_nil, List.cons_append, List.nil_append, List.append_assoc]

end KrabiTls
