import Robstride.Sdk.Private
import Robstride.Sdk.Mit

/-!
# Sdk — Protocol strategy

`robstride_protocol.h`: the interface the two protocols implement, and the choice the
constructor of `Motor` makes.  `encodeMitControl` is partial, since scaling a setpoint is
(`Scaling.lean`).
-/

namespace Robstride

open Support (ExtRat)

/-- The virtual functions: one encoder for each command, and the readers of replies. -/
structure ProtocolStrategy where
  parseFeedback : CanFrame → MotorStatus → MotorProfile → Option MotorStatus
  encodeEnable : Byte → Byte → CanFrame
  encodeStop : Byte → Byte → CanFrame
  encodeClearError : Byte → Byte → CanFrame
  encodePing : Byte → Byte → CanFrame
  encodeSetZero : Byte → Byte → CanFrame
  encodeMitControl : Byte → Byte → ExtRat → ExtRat → ExtRat → ExtRat → ExtRat → MotorProfile →
    Option CanFrame
  encodeReadParam : Byte → Byte → BitVec 16 → CanFrame
  encodeWriteParam : Byte → Byte → BitVec 16 → BitVec 32 → CanFrame
  isFeedbackFrame : CanFrame → Byte → Bool
  getResponseType : CanFrame → FrameType
  pingResponseType : FrameType

/-- `std::make_unique<ProtocolPrivate>()` or `std::make_unique<ProtocolMIT>()`. -/
def Protocol.strategy : Protocol → ProtocolStrategy
  | .priv =>
      { parseFeedback := ProtocolPrivate.parseFeedback
        encodeEnable := ProtocolPrivate.encodeEnable
        encodeStop := ProtocolPrivate.encodeStop
        encodeClearError := ProtocolPrivate.encodeClearError
        encodePing := ProtocolPrivate.encodePing
        encodeSetZero := ProtocolPrivate.encodeSetZero
        encodeMitControl := ProtocolPrivate.encodeMitControl
        encodeReadParam := ProtocolPrivate.encodeReadParam
        encodeWriteParam := ProtocolPrivate.encodeWriteParam
        isFeedbackFrame := ProtocolPrivate.isFeedbackFrame
        getResponseType := ProtocolPrivate.getResponseType
        pingResponseType := ProtocolPrivate.pingResponseType }
  | .mit =>
      { parseFeedback := ProtocolMIT.parseFeedback
        encodeEnable := ProtocolMIT.encodeEnable
        encodeStop := ProtocolMIT.encodeStop
        encodeClearError := ProtocolMIT.encodeClearError
        encodePing := ProtocolMIT.encodePing
        encodeSetZero := ProtocolMIT.encodeSetZero
        encodeMitControl := ProtocolMIT.encodeMitControl
        encodeReadParam := ProtocolMIT.encodeReadParam
        encodeWriteParam := ProtocolMIT.encodeWriteParam
        isFeedbackFrame := ProtocolMIT.isFeedbackFrame
        getResponseType := ProtocolMIT.getResponseType
        pingResponseType := ProtocolMIT.pingResponseType }

end Robstride
