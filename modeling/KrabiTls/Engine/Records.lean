import KrabiTls.Engine.Steps

/-! The data-phase records that are handled without error: application data, the peer's
`close_notify`, post-handshake messages that are skipped or go on, and key updates. -/
namespace KrabiTls
open Lib

namespace Core
variable {cfg : ClientConfig} {sz : Sizes}

/-- What the content of a record does to the state in which it was opened. The third argument is
the application data it leaves to read. -/
inductive Accepts (c : Core cfg sz) (content : Bytes) : UInt8 → Bytes → Core cfg sz → Prop where
  | appData (hph : c.ph.inProgress = false) : c.Accepts content ctApplicationData content c
  | closeNotify {rest : Bytes} (hph : c.ph.inProgress = false) (halert : content = 1 :: 0 :: rest) :
      c.Accepts content ctAlert [] { c with closed := true }
  | goesOn {ph : PostHandshakeReasm}
      (hfeed : PostHandshakeReasm.feedLoop.run (c.ph, content) = (.ok none, ph)) :
      c.Accepts content ctHandshake [] { c with ph }
  | keyUpdate {ph : PostHandshakeReasm} {conn conn' : AppData}
      (hfeed : PostHandshakeReasm.feedLoop.run (c.ph, content) = (.ok (some false), ph))
      (hstate : c.state = .app conn) (hnext : conn.applyRecvKeyUpdate cfg = .ok conn') :
      c.Accepts content ctHandshake [] ({ c with ph }.rotatedRecv conn')
  | keyUpdateRequested {ph : PostHandshakeReasm} {conn conn' conn₁ conn₂ : AppData}
      {record : Bytes} {c₁ : Core cfg sz}
      (hfeed : PostHandshakeReasm.feedLoop.run (c.ph, content) = (.ok (some true), ph))
      (hstate : c.state = .app conn) (hnext : conn.applyRecvKeyUpdate cfg = .ok conn')
      (hseal : ({ c with ph }.rotatedRecv conn').sealRecord conn' (AppData.keyUpdateMsg false)
        ctHandshake = (.ok (record, conn₁), c₁))
      (hrotate : conn₁.applySendKeyUpdate cfg = .ok conn₂) :
      c.Accepts content ctHandshake [] ((c₁.rotatedSend conn₂).queue record)

theorem feedPostHandshake_accepts {c c' : Core cfg sz} {content : Bytes}
    (h : c.feedPostHandshake content = (.ok (), c')) : c.Accepts content ctHandshake [] c' := by
  unfold feedPostHandshake at h
  rcases hfeed : PostHandshakeReasm.feedLoop.run (c.ph, content) with ⟨_ | _ | requested, ph⟩
  · rw [hfeed] at h
    cases h
  · rw [hfeed] at h
    cases h
    exact .goesOn hfeed
  · rw [hfeed] at h
    dsimp only [processKeyUpdate] at h
    split at h
    · rename_i conn hstate
      split at h
      · cases h
      · rename_i conn' hnext
        cases requested with
        | false =>
          cases h
          exact .keyUpdate hfeed hstate hnext
        | true =>
          simp only [answerKeyUpdate_eq, not_true_eq_false, if_false] at h
          split at h
          · cases h
          · rename_i hseal
            split at h
            · cases h
            · rename_i hrotate
              cases h
              exact .keyUpdateRequested hfeed hstate hnext hseal hrotate
    · cases h

theorem handleInnerContent_accepts {c c' : Core cfg sz} {content parked : Bytes} {ct : UInt8}
    (h : c.handleInnerContent content ct = (.ok parked, c')) : c.Accepts content ct parked c' := by
  unfold handleInnerContent at h
  split at h
  · cases h
  · rename_i hph
    have hquiet (hct : ct ≠ ctHandshake) : c.ph.inProgress = false := by simp_all
    split at h
    · rename_i hct
      cases h
      subst hct
      exact .appData (hquiet (by decide))
    · split at h
      · rename_i hct
        subst hct
        split at h
        · split at h
          · rename_i hnotify
            obtain ⟨rfl, rfl⟩ := hnotify
            cases h
            exact .closeNotify (hquiet (by decide)) rfl
          · cases h
        · cases h
      · split at h
        · rename_i hct
          subst hct
          dsimp only at h
          rcases hfeed : c.feedPostHandshake content with ⟨_ | _, c₁⟩
          · rw [hfeed] at h
            cases h
          · rw [hfeed] at h
            cases h
            exact feedPostHandshake_accepts hfeed
        · cases h

/-- A record handled without error was opened, and its content accepted. -/
theorem dispatchDataRecord_accepts {c : Core cfg sz} {outerType : UInt8} {record parked : Bytes}
    (h : (c.dispatchDataRecord outerType record).result = .ok parked) :
    ∃ content ct opened, outerType = ctApplicationData ∧
      c.decryptDataRecord record =
        (.ok (content, ct), (c.dispatchDataRecord outerType record).record, opened) ∧
      opened.Accepts content ct parked (c.dispatchDataRecord outerType record).core := by
  rcases c.dispatchDataRecord_cases outerType record with
    ⟨err, herr, -⟩ | ⟨content, ct, opened, houter, hopen, -, ⟨err, -, herr, -⟩ | ⟨parked', hok, hres⟩⟩
  · rw [h] at herr
    cases herr
  · rw [h] at herr
    cases herr
  · rw [h] at hres
    cases hres
    exact ⟨content, ct, opened, houter, hopen, handleInnerContent_accepts hok⟩

theorem Accepts.rejected {c c' : Core cfg sz} {content parked : Bytes} {ct : UInt8}
    (h : c.Accepts content ct parked c') : c'.history.rejected = c.history.rejected ∧
      c'.history.terminal = c.history.terminal := by
  cases h with
  | keyUpdateRequested _ _ _ hseal =>
    obtain ⟨-, rfl, rfl⟩ := sealRecord_eq_ok _ hseal
    exact ⟨rfl, rfl⟩
  | _ => exact ⟨rfl, rfl⟩

end Core

namespace Engine
variable {cfg : ClientConfig} {sz : Sizes}

theorem dispatchDataRecord_accepts {e e' : Engine cfg sz} {start stop : Nat} {outerType : UInt8}
    (h : e.dispatchDataRecord start stop outerType = (.ok (), e')) :
    ∃ content ct parked record opened,
      e.core.decryptDataRecord (slice e.recvRecord.val start stop) =
        (.ok (content, ct), record, opened) ∧ opened.Accepts content ct parked e'.core := by
  unfold dispatchDataRecord at h
  dsimp only at h
  cases hres : (e.core.dispatchDataRecord outerType (slice e.recvRecord.val start stop)).result with
  | error err => simp [hres] at h
  | ok parked =>
    obtain ⟨content, ct, opened, -, hopen, haccepts⟩ := Core.dispatchDataRecord_accepts hres
    have hcore : e'.core =
        (e.core.dispatchDataRecord outerType (slice e.recvRecord.val start stop)).core := by
      rw [hres] at h
      split at h <;> cases h <;> rfl
    exact ⟨content, ct, parked, _, opened, hopen, hcore ▸ haccepts⟩

end Engine

end KrabiTls
