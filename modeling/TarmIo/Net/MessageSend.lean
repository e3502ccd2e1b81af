import TarmIo.Core.SizeEncoding
import TarmIo.Net.TcpSend
import TarmIo.Net.MessageStream

/-!
# Sending in `net/GenericMessageOrientedClientBase.h`

A message goes out as its size and then its bytes, in two sends of the TCP client.
The overloads differ in how the length reaches the two sends: buffers come with a
32-bit size, a string is measured by `size()` for the size field and cast to 32
bits by the TCP client for the payload.
-/

namespace TarmIo.Net

open Foundation TarmIo.Core VariableLengthSize

/-- A buffer argument: a size and the bytes behind the pointer, `none` for null. -/
structure RawBuffer where
  size : UInt32
  bytes : Option (List UInt8)
  size_eq : ∀ bs, bytes = some bs → bs.length = size.toNat

structure StdString where
  bytes : List UInt8
  size_lt : bytes.length < 2 ^ 64

inductive SendArgument where
  | pointer (buffer : RawBuffer)
  | shared (buffer : RawBuffer)
  | unique (buffer : RawBuffer)
  | string (message : StdString)
  | stringMove (message : StdString)

def SendArgument.message : SendArgument → Option (List UInt8)
  | .pointer buffer | .shared buffer | .unique buffer => buffer.bytes
  | .string message | .stringMove message => some message.bytes

namespace MessageClient

open SendEffect

/-- `do_send_size`; `size` is compared as a `size_t`, and `vs` is made from it by the
constructor for its type. The flag says whether to go on. -/
def doSendSize (s : MessageClient) (c : TcpClient) (callback : Bool) (uvWrite : Error)
    (size : UInt64) (vs : VariableLengthSize) : Bool × TcpClient × List SendEffect :=
  if size = 0 then (false, c, report callback (.ofCode .invalidArgument))
  else if size > s.maxMessageSize then (false, c, report callback (.ofCode .messageTooLong))
  else
    -- No callback is passed for the size, and the result of its send is not looked at.
    (true, c.copyAndSendData vs.bytes (UInt32.ofNat vs.bytesCount) false uvWrite)

/-- The overloads of `send_size_impl`. -/
def sendSizeImpl (s : MessageClient) (c : TcpClient) (callback : Bool) (uvWrite : Error) :
    SendArgument → Bool × TcpClient × List SendEffect
  | .pointer buffer | .shared buffer | .unique buffer =>
      s.doSendSize c callback uvWrite buffer.size.toUInt64 (ofUInt32 buffer.size)
  | .string message | .stringMove message =>
      s.doSendSize c callback uvWrite (UInt64.ofNat message.bytes.length)
        (ofUInt64 (UInt64.ofNat message.bytes.length))

/-- The overload of the TCP client's `send_data` that an argument is forwarded to. -/
def forwardData (c : TcpClient) (callback : Bool) (uvWrite : Error) :
    SendArgument → TcpClient × List SendEffect
  | .pointer buffer | .shared buffer | .unique buffer =>
      c.sendData buffer.bytes buffer.size callback uvWrite
  | .string message => c.sendDataString message.bytes callback uvWrite
  | .stringMove message => c.sendDataStringMove message.bytes callback uvWrite

/-- `send_data_impl`, with the results of `uv_write` for the size and for the payload. -/
def sendDataImpl (s : MessageClient) (c : TcpClient) (argument : SendArgument)
    (callback : Bool) (uvWriteSize uvWritePayload : Error) : TcpClient × List SendEffect :=
  let size := s.sendSizeImpl c callback uvWriteSize argument
  if size.1 then
    let payload := forwardData size.2.1 callback uvWritePayload argument
    (payload.1, size.2.2 ++ payload.2)
  else size.2

end MessageClient

def handed (effects : List SendEffect) : List UInt8 :=
  effects.flatMap fun
    | .write bytes => bytes
    | .callback _ => []

@[simp] theorem handed_nil : handed [] = [] := rfl

@[simp] theorem handed_write (bytes : List UInt8) (es : List SendEffect) :
    handed (.write bytes :: es) = bytes ++ handed es := rfl

@[simp] theorem handed_append (xs ys : List SendEffect) :
    handed (xs ++ ys) = handed xs ++ handed ys := List.flatMap_append

@[simp] theorem handed_report (callback : Bool) (error : Error) :
    handed (SendEffect.report callback error) = [] := by
  cases callback <;> rfl

/-! ## The effects of a send -/

namespace SendArgument

def announced : SendArgument → Nat
  | .pointer buffer | .shared buffer | .unique buffer => buffer.size.toNat
  | .string message | .stringMove message => message.bytes.length

def forwarded : SendArgument → UInt32
  | .pointer buffer | .shared buffer | .unique buffer => buffer.size
  | .string message | .stringMove message => UInt32.ofNat message.bytes.length

theorem announced_lt (argument : SendArgument) : argument.announced < 2 ^ 64 := by
  have hbuffer : ∀ buffer : RawBuffer, buffer.size.toNat < 2 ^ 64 := by
    intro buffer
    have hlt := buffer.size.toNat_lt
    omega
  cases argument with
  | pointer buffer => exact hbuffer buffer
  | shared buffer => exact hbuffer buffer
  | unique buffer => exact hbuffer buffer
  | string message => exact message.size_lt
  | stringMove message => exact message.size_lt

end SendArgument

namespace MessageClient

open SendEffect

variable {c : TcpClient}

theorem sendSizeImpl_eq (s : MessageClient) (c : TcpClient) (callback : Bool) (uvWrite : Error)
    (argument : SendArgument) :
    s.sendSizeImpl c callback uvWrite argument =
      s.doSendSize c callback uvWrite (UInt64.ofNat argument.announced)
        (ofUInt64 (UInt64.ofNat argument.announced)) := by
  have hword : ∀ size : UInt32, UInt64.ofNat size.toNat = size.toUInt64 := by
    intro size
    rw [← UInt32.toNat_toUInt64, UInt64.ofNat_toNat]
  cases argument with
  | pointer buffer => simp only [SendArgument.announced, hword]; rfl
  | shared buffer => simp only [SendArgument.announced, hword]; rfl
  | unique buffer => simp only [SendArgument.announced, hword]; rfl
  | string message => rfl
  | stringMove message => rfl

theorem forwardData_eq (c : TcpClient) (callback : Bool) (uvWrite : Error)
    (argument : SendArgument) :
    forwardData c callback uvWrite argument =
      c.sendDataImpl argument.message argument.forwarded callback uvWrite := by
  cases argument <;> rfl

/-- The size field goes out as one write, unless the length has no encoding. -/
def sizeEffects (n : Nat) : List SendEffect := if n < 2 ^ 56 then [.write (field n)] else []

def payloadEffects (argument : SendArgument) (callback : Bool) : List SendEffect :=
  if argument.forwarded = 0 ∨ argument.message = none then
    report callback (.ofCode .invalidArgument)
  else [.write ((argument.message.getD []).take argument.forwarded.toNat)]

theorem handed_payloadEffects_length_le (argument : SendArgument) (callback : Bool) :
    (handed (payloadEffects argument callback)).length ≤ argument.forwarded.toNat := by
  unfold payloadEffects
  split
  · simp
  · simp only [handed_write, handed_nil, List.append_nil, List.length_take]
    omega

theorem copyAndSendData_size (hopen : c.isOpen = true) {n : Nat} (hn : n < 2 ^ 64) :
    (c.copyAndSendData (ofUInt64 (UInt64.ofNat n)).bytes
        (UInt32.ofNat (ofUInt64 (UInt64.ofNat n)).bytesCount) false {}).2 = sizeEffects n := by
  have hword : (UInt64.ofNat n).toNat = n := by
    rw [UInt64.toNat_ofNat']
    omega
  have hcount : (UInt32.ofNat (ofUInt64 (UInt64.ofNat n)).bytesCount).toNat =
      (ofUInt64 (UInt64.ofNat n)).bytesCount := by
    have hle := bytesCount_le (ofUInt64 (UInt64.ofNat n))
    rw [UInt32.toNat_ofNat']
    omega
  rw [TcpClient.copyAndSendData, TcpClient.sendDataImpl_open hopen, hcount, sizeEffects]
  by_cases hsmall : n < 2 ^ 56
  · have hwire := @ofUInt64_wire (UInt64.ofNat n) (by rw [hword]; exact hsmall)
    rw [hword] at hwire
    have hne : ¬ UInt32.ofNat (ofUInt64 (UInt64.ofNat n)).bytesCount = 0 := by
      intro h0
      rw [h0] at hcount
      rw [← hcount] at hwire
      exact (field_isField n).ne_nil hwire.symm
    rw [if_neg (by simp [hne]), if_pos hsmall, Option.getD_some, List.take_take, Nat.min_self,
      hwire]
  · have hempty := @ofUInt64_too_large (UInt64.ofNat n) (by rw [hword]; omega)
    have hzero : UInt32.ofNat (ofUInt64 (UInt64.ofNat n)).bytesCount = 0 := by
      rw [hempty]
      rfl
    rw [if_pos (.inl hzero), if_neg hsmall]
    rfl

/-- Everything one send does on an open client that accepts the writes. -/
theorem sendDataImpl_effects (s : MessageClient) (hopen : c.isOpen = true) (argument : SendArgument)
    (callback : Bool) :
    (s.sendDataImpl c argument callback {} {}).2 =
      if argument.announced = 0 then report callback (.ofCode .invalidArgument)
      else if s.maxMessageSize.toNat < argument.announced then
        report callback (.ofCode .messageTooLong)
      else sizeEffects argument.announced ++ payloadEffects argument callback := by
  have hlt := argument.announced_lt
  have hword : (UInt64.ofNat argument.announced).toNat = argument.announced := by
    rw [UInt64.toNat_ofNat']
    omega
  have hzero : UInt64.ofNat argument.announced = 0 ↔ argument.announced = 0 := by
    rw [← UInt64.toNat_inj, hword]
    rfl
  have hgt : UInt64.ofNat argument.announced > s.maxMessageSize ↔
      s.maxMessageSize.toNat < argument.announced := by
    rw [gt_iff_lt, UInt64.lt_iff_toNat_lt, hword]
  rw [sendDataImpl, sendSizeImpl_eq, doSendSize]
  by_cases h0 : argument.announced = 0
  · simp [h0]
  · by_cases hlong : s.maxMessageSize.toNat < argument.announced
    · simp [hzero, h0, hgt, hlong]
    · have hstill : (c.copyAndSendData (ofUInt64 (UInt64.ofNat argument.announced)).bytes
          (UInt32.ofNat (ofUInt64 (UInt64.ofNat argument.announced)).bytesCount) false
          {}).1.isOpen = true := by
        rw [TcpClient.copyAndSendData, TcpClient.sendDataImpl_isOpen, hopen]
      simp only [hzero, h0, hgt, hlong, if_false, if_true, copyAndSendData_size hopen hlt,
        forwardData_eq, TcpClient.sendDataImpl_open hstill, payloadEffects]

/-! ## All or nothing -/

variable {argument : SendArgument}

/-- The send handed nothing over and reported an error, if it could, or it handed over
a size field of the message's length and the whole message. -/
def AllOrNothing (argument : SendArgument) (callback : Bool) (effects : List SendEffect) : Prop :=
  ((∀ bytes, .write bytes ∉ effects) ∧
      (callback = true → ∃ error, .callback error ∈ effects ∧ error.isError = true)) ∨
    ∃ size message, argument.message = some message ∧ IsField size message.length ∧
      handed effects = size ++ message

/-- The arguments that are sent properly or refused under a limit. -/
def Sendable (limit : Nat) : SendArgument → Prop
  | .pointer buffer | .shared buffer | .unique buffer =>
      buffer.size.toNat = 0 ∨ limit < buffer.size.toNat ∨ buffer.bytes ≠ none
  | .string message | .stringMove message =>
      message.bytes.length = 0 ∨ limit < message.bytes.length ∨
        message.bytes.length < 2 ^ 32 ∨
        2 ^ 56 ≤ message.bytes.length ∧ 2 ^ 32 ∣ message.bytes.length

theorem allOrNothing_report (argument : SendArgument) (callback : Bool) {code : StatusCode}
    (hcode : code ≠ .ok) :
    AllOrNothing argument callback (report callback (.ofCode code)) := by
  refine .inl ⟨?_, ?_⟩
  · cases callback <;> simp [report]
  · rintro rfl
    exact ⟨.ofCode code, List.mem_singleton.mpr rfl, by simpa [Error.isError_ofCode] using hcode⟩

/-- A write that is not a size field and the whole message. -/
theorem not_allOrNothing_of_write {argument : SendArgument} {callback : Bool}
    {effects : List SendEffect} (bytes : List UInt8) (hmem : .write bytes ∈ effects)
    (hshort : ∀ message, argument.message = some message →
      (handed effects).length ≤ message.length) :
    ¬ AllOrNothing argument callback effects := by
  rintro (⟨hnone, _⟩ | ⟨size, message, hmessage, hfield, hhanded⟩)
  · exact hnone bytes hmem
  · have hle := hshort message hmessage
    have hpos := List.length_pos_iff.mpr hfield.ne_nil
    rw [hhanded, List.length_append] at hle
    omega

/-- A size of zero and one above the limit are refused; the rest is up to what is sent. -/
theorem allOrNothing_iff_of_sent (s : MessageClient) {c : TcpClient} (hopen : c.isOpen = true)
    {argument : SendArgument} (callback : Bool) {good : Prop}
    (hsent : argument.announced ≠ 0 →
      (AllOrNothing argument callback
        (sizeEffects argument.announced ++ payloadEffects argument callback) ↔ good)) :
    AllOrNothing argument callback (s.sendDataImpl c argument callback {} {}).2 ↔
      (argument.announced = 0 ∨ s.maxMessageSize.toNat < argument.announced ∨ good) := by
  rw [sendDataImpl_effects s hopen]
  by_cases h0 : argument.announced = 0
  · rw [if_pos h0]
    exact iff_of_true (allOrNothing_report argument callback (by decide)) (.inl h0)
  · by_cases hlong : s.maxMessageSize.toNat < argument.announced
    · rw [if_neg h0, if_pos hlong]
      exact iff_of_true (allOrNothing_report argument callback (by decide)) (.inr (.inl hlong))
    · rw [if_neg h0, if_neg hlong, hsent h0]
      exact ⟨fun h => .inr (.inr h), fun h => (h.resolve_left h0).resolve_left hlong⟩

theorem allOrNothing_buffer_iff (s : MessageClient) (hopen : c.isOpen = true) {buffer : RawBuffer}
    (hmessage : argument.message = buffer.bytes)
    (hannounced : argument.announced = buffer.size.toNat)
    (hforwarded : argument.forwarded = buffer.size) (callback : Bool) :
    AllOrNothing argument callback (s.sendDataImpl c argument callback {} {}).2 ↔
      (buffer.size.toNat = 0 ∨ s.maxMessageSize.toNat < buffer.size.toNat ∨
        buffer.bytes ≠ none) := by
  have hlt := buffer.size.toNat_lt
  have hsmall : buffer.size.toNat < 2 ^ 56 := by omega
  rw [← hannounced]
  refine allOrNothing_iff_of_sent s hopen callback fun h0 => ?_
  rw [hannounced] at h0 ⊢
  rw [sizeEffects, if_pos hsmall]
  cases hbytes : buffer.bytes with
  | none =>
      refine iff_of_false (not_allOrNothing_of_write (field buffer.size.toNat) (by simp) ?_)
        (by simp)
      intro message hsome
      rw [hmessage, hbytes] at hsome
      cases hsome
  | some bytes =>
      have hsize := buffer.size_eq bytes hbytes
      have hne : ¬ (argument.forwarded = 0 ∨ argument.message = none) := by
        rw [hforwarded, hmessage, hbytes]
        rintro (hzero | hnone)
        · exact h0 (by rw [hzero]; rfl)
        · cases hnone
      rw [payloadEffects, if_neg hne, hmessage, hforwarded, hbytes]
      refine iff_of_true (.inr ⟨field buffer.size.toNat, bytes, ?_, ?_, ?_⟩) (by simp)
      · rw [hmessage, hbytes]
      · rw [hsize]
        exact field_isField _
      · simp [← hsize]

theorem forwarded_string {n : Nat} (hforwarded : argument.forwarded = UInt32.ofNat n) :
    argument.forwarded.toNat = n % 2 ^ 32 := by
  rw [hforwarded, UInt32.toNat_ofNat']

section String

variable {argument : SendArgument} {message : List UInt8} (callback : Bool)
  (hmessage : argument.message = some message)
  (hforwarded : argument.forwarded = UInt32.ofNat message.length)
include hmessage hforwarded

theorem refused_string_iff : (argument.forwarded = 0 ∨ argument.message = none) ↔
    message.length % 2 ^ 32 = 0 := by
  rw [← UInt32.toNat_inj, forwarded_string hforwarded, hmessage]
  exact or_iff_left (Option.some_ne_none _)

/-- A size field announces all bytes, but the cast length lets fewer through from 2^32 on. -/
theorem allOrNothing_string_field (h0 : message.length ≠ 0) (hfield : message.length < 2 ^ 56) :
    AllOrNothing argument callback
        (sizeEffects message.length ++ payloadEffects argument callback) ↔
      message.length < 2 ^ 32 := by
  have hcast := forwarded_string hforwarded
  have hsent := refused_string_iff hmessage hforwarded
  rw [sizeEffects, if_pos hfield]
  by_cases hwhole : message.length < 2 ^ 32
  · have hfull := Nat.mod_eq_of_lt hwhole
    have hne : ¬ message.length % 2 ^ 32 = 0 := by omega
    rw [payloadEffects, if_neg (fun h => hne (hsent.mp h)), hcast, hfull, hmessage]
    exact iff_of_true (.inr ⟨field message.length, message, hmessage, field_isField _, by simp⟩)
      hwhole
  · have hshort := handed_payloadEffects_length_le argument callback
    have hlen : (field message.length).length ≤ 8 := field_length_le hfield
    refine iff_of_false (not_allOrNothing_of_write (field message.length) (by simp) ?_) hwhole
    intro m hm
    rw [hmessage] at hm
    cases hm
    rw [handed_append, List.length_append, handed_write, handed_nil, List.append_nil]
    rw [hcast] at hshort
    omega

/-- There is no encoding of the length, so the payload goes out alone, if at all. -/
theorem allOrNothing_string_bare (hfield : ¬ message.length < 2 ^ 56) :
    AllOrNothing argument callback
        (sizeEffects message.length ++ payloadEffects argument callback) ↔
      2 ^ 32 ∣ message.length := by
  have hcast := forwarded_string hforwarded
  have hsent := refused_string_iff hmessage hforwarded
  rw [sizeEffects, if_neg hfield, List.nil_append]
  by_cases hdvd : 2 ^ 32 ∣ message.length
  · rw [payloadEffects, if_pos (hsent.mpr (Nat.mod_eq_zero_of_dvd hdvd))]
    exact iff_of_true (allOrNothing_report argument callback (by decide)) hdvd
  · have hshort := handed_payloadEffects_length_le argument callback
    have hne : ¬ (argument.forwarded = 0 ∨ argument.message = none) := fun h =>
      hdvd (Nat.dvd_of_mod_eq_zero (hsent.mp h))
    rw [hcast] at hshort
    rw [payloadEffects, if_neg hne] at hshort ⊢
    refine iff_of_false (not_allOrNothing_of_write _ (List.mem_singleton.mpr rfl) ?_) hdvd
    intro m hm
    rw [hmessage] at hm
    cases hm
    omega

end String

theorem allOrNothing_string_iff (s : MessageClient) (hopen : c.isOpen = true) {message : StdString}
    (hmessage : argument.message = some message.bytes)
    (hannounced : argument.announced = message.bytes.length)
    (hforwarded : argument.forwarded = UInt32.ofNat message.bytes.length) (callback : Bool) :
    AllOrNothing argument callback (s.sendDataImpl c argument callback {} {}).2 ↔
      (message.bytes.length = 0 ∨ s.maxMessageSize.toNat < message.bytes.length ∨
        message.bytes.length < 2 ^ 32 ∨
        2 ^ 56 ≤ message.bytes.length ∧ 2 ^ 32 ∣ message.bytes.length) := by
  rw [← hannounced]
  refine allOrNothing_iff_of_sent s hopen callback fun h0 => ?_
  rw [hannounced] at h0 ⊢
  by_cases hfield : message.bytes.length < 2 ^ 56
  · rw [allOrNothing_string_field callback hmessage hforwarded h0 hfield]
    omega
  · rw [allOrNothing_string_bare callback hmessage hforwarded hfield]
    omega

/-- A send is all or nothing exactly for these arguments. The others are a null buffer of
an allowed size, whose size field goes out alone, and a string that does not fit 32
bits, whose payload is cut. -/
theorem send_allOrNothing_iff (s : MessageClient) {c : TcpClient} (hopen : c.isOpen = true)
    (argument : SendArgument) (callback : Bool) :
    AllOrNothing argument callback (s.sendDataImpl c argument callback {} {}).2 ↔
      Sendable s.maxMessageSize.toNat argument := by
  cases argument with
  | pointer buffer => exact allOrNothing_buffer_iff s hopen rfl rfl rfl callback
  | shared buffer => exact allOrNothing_buffer_iff s hopen rfl rfl rfl callback
  | unique buffer => exact allOrNothing_buffer_iff s hopen rfl rfl rfl callback
  | string message => exact allOrNothing_string_iff s hopen rfl rfl rfl callback
  | stringMove message => exact allOrNothing_string_iff s hopen rfl rfl rfl callback

def nullBuffer : RawBuffer := ⟨5, none, by simp⟩

/-- The size field of a null buffer is handed over before the buffer is looked at. -/
theorem send_null_buffer_size :
    (sendDataImpl (fresh 16 fun _ => 0) ⟨true, 0⟩ (.pointer nullBuffer) true {} {}).2 =
        [.write [5], .callback (.ofCode .invalidArgument)] ∧
      ¬ AllOrNothing (.pointer nullBuffer) true
        (sendDataImpl (fresh 16 fun _ => 0) ⟨true, 0⟩ (.pointer nullBuffer) true {} {}).2 := by
  have heffects :
      (sendDataImpl (fresh 16 fun _ => 0) ⟨true, 0⟩ (.pointer nullBuffer) true {} {}).2 =
        [.write [5], .callback (.ofCode .invalidArgument)] := by
    decide +kernel
  refine ⟨heffects, ?_⟩
  rw [heffects]
  refine not_allOrNothing_of_write [5] (by simp) ?_
  intro message hmessage
  cases hmessage

theorem send_allOrNothing_iff_null :
    (TcpClient.mk true 0).isOpen = true ∧
      (AllOrNothing (.pointer nullBuffer) false
          (sendDataImpl (fresh 4 fun _ => 0) ⟨true, 0⟩ (.pointer nullBuffer) false {} {}).2 ↔
        Sendable (4 : UInt64).toNat (.pointer nullBuffer)) :=
  ⟨rfl, send_allOrNothing_iff (fresh 4 fun _ => 0) rfl (.pointer nullBuffer) false⟩

/-! ## From a sender to a receiver -/

/-- Sends one after another, on a client that accepts the writes. A send comes with
whether it has a callback. -/
def sendAll (s : MessageClient) (c : TcpClient) (sends : List (SendArgument × Bool)) :
    TcpClient × List SendEffect :=
  feed (fun c send => s.sendDataImpl c send.1 send.2 {} {}) c sends

theorem sendDataImpl_isOpen (s : MessageClient) (c : TcpClient) (argument : SendArgument)
    (callback : Bool) (uvWriteSize uvWritePayload : Error) :
    (s.sendDataImpl c argument callback uvWriteSize uvWritePayload).1.isOpen = c.isOpen := by
  have hsize : (s.sendSizeImpl c callback uvWriteSize argument).2.1.isOpen = c.isOpen := by
    rw [sendSizeImpl_eq, doSendSize]
    split
    · rfl
    · split
      · rfl
      · exact TcpClient.sendDataImpl_isOpen ..
  rw [sendDataImpl]
  split
  · simp only [forwardData_eq, TcpClient.sendDataImpl_isOpen, hsize]
  · exact hsize

/-- A message within both limits goes out whole, behind its size field. -/
theorem sendDataImpl_handed (s : MessageClient) (hopen : c.isOpen = true) {message : List UInt8}
    (hmessage : argument.message = some message) (hpos : 0 < message.length)
    (hmax : message.length ≤ s.maxMessageSize.toNat) (hword : message.length < 2 ^ 32)
    (callback : Bool) :
    handed (s.sendDataImpl c argument callback {} {}).2 = field message.length ++ message := by
  have hlengths : argument.announced = message.length ∧
      argument.forwarded.toNat = message.length := by
    have hbuffer : ∀ buffer : RawBuffer, buffer.bytes = some message →
        buffer.size.toNat = message.length := fun buffer h => (buffer.size_eq message h).symm
    have hcast : (UInt32.ofNat message.length).toNat = message.length := by
      rw [UInt32.toNat_ofNat']
      omega
    cases argument with
    | pointer buffer => exact ⟨hbuffer buffer hmessage, hbuffer buffer hmessage⟩
    | shared buffer => exact ⟨hbuffer buffer hmessage, hbuffer buffer hmessage⟩
    | unique buffer => exact ⟨hbuffer buffer hmessage, hbuffer buffer hmessage⟩
    | string text => cases hmessage; exact ⟨rfl, hcast⟩
    | stringMove text => cases hmessage; exact ⟨rfl, hcast⟩
  obtain ⟨hannounced, hforwarded⟩ := hlengths
  have hsent : ¬ (argument.forwarded = 0 ∨ argument.message = none) := by
    rintro (hzero | hnone)
    · rw [hzero] at hforwarded
      exact Nat.ne_of_gt hpos hforwarded.symm
    · rw [hmessage] at hnone
      cases hnone
  rw [sendDataImpl_effects s hopen, hannounced, if_neg (by omega), if_neg (by omega), sizeEffects,
    if_pos (by omega), payloadEffects, if_neg hsent, hforwarded, hmessage]
  simp

theorem sendAll_handed (s : MessageClient) {c : TcpClient} (hopen : c.isOpen = true)
    {messages : List (List UInt8)}
    (hlen : ∀ m ∈ messages, 1 ≤ m.length ∧ m.length ≤ s.maxMessageSize.toNat ∧ m.length < 2 ^ 32)
    {sends : List (SendArgument × Bool)}
    (hsends : sends.map (fun send => send.1.message) = messages.map some) :
    handed (s.sendAll c sends).2 = messages.flatMap fun m => field m.length ++ m := by
  induction sends generalizing c messages with
  | nil =>
      have hnil : messages = [] := by simpa using hsends.symm
      rw [hnil]
      rfl
  | cons send sends ih =>
      cases messages with
      | nil => simp at hsends
      | cons m ms =>
          simp only [List.map_cons, List.cons.injEq] at hsends
          obtain ⟨hpos, hmax, hword⟩ := hlen m List.mem_cons_self
          have hfirst := s.sendDataImpl_handed hopen hsends.1 hpos hmax hword send.2
          have hstill : (s.sendDataImpl c send.1 send.2 {} {}).1.isOpen = true := by
            rw [sendDataImpl_isOpen, hopen]
          have hrec := ih hstill (fun m' hm' => hlen m' (List.mem_cons_of_mem m hm')) hsends.2
          rw [sendAll, feed_cons, handed_append, hfirst, List.flatMap_cons]
          exact congrArg _ hrec

def frameOf (message : List UInt8) (h : message.length < 2 ^ 56) : Frame :=
  ⟨field message.length, message, field_length_le h, field_isField _⟩

theorem exists_frames {messages : List (List UInt8)} (h : ∀ m ∈ messages, m.length < 2 ^ 56) :
    ∃ frames : List Frame, frames.map Frame.payload = messages ∧
      frames.flatMap Frame.bytes = messages.flatMap fun m => field m.length ++ m := by
  induction messages with
  | nil => exact ⟨[], rfl, rfl⟩
  | cons m ms ih =>
      obtain ⟨frames, hpayload, hbytes⟩ := ih fun m' hm' => h m' (List.mem_cons_of_mem m hm')
      refine ⟨frameOf m (h m List.mem_cons_self) :: frames, ?_, ?_⟩
      · rw [List.map_cons, hpayload]
        rfl
      · rw [List.flatMap_cons, List.flatMap_cons, hbytes]
        rfl

/-- What is sent is received: any messages within the limits, by any overloads, under
any chunking of the bytes handed over. -/
theorem send_receive_roundtrip (sender : MessageClient) {c : TcpClient} (hopen : c.isOpen = true)
    (memory : Nat → UInt8) {messages : List (List UInt8)}
    (hlen : ∀ m ∈ messages,
      1 ≤ m.length ∧ m.length ≤ sender.maxMessageSize.toNat ∧ m.length < 2 ^ 32)
    {sends : List (SendArgument × Bool)}
    (hsends : sends.map (fun send => send.1.message) = messages.map some)
    {chunks : List DataChunk} (h : IsChunking (handed (sender.sendAll c sends).2) chunks) :
    reports (receiveAll true (fresh sender.maxMessageSize memory) chunks).2 =
      messages.map fun m => ⟨some m, UInt64.ofNat m.length, {}⟩ := by
  rw [sendAll_handed sender hopen hlen hsends] at h
  obtain ⟨frames, rfl, hbytes⟩ := @exists_frames messages fun m hm => by
    have hword := (hlen m hm).2.2
    omega
  rw [← hbytes] at h
  have hne : ∀ f ∈ frames, f.payload ≠ [] := by
    intro f hf
    exact List.length_pos_iff.mp (hlen f.payload (List.mem_map_of_mem hf)).1
  rw [receive_frames sender.maxMessageSize memory hne h, List.map_map]
  apply List.map_congr_left
  intro f hf
  have hmax := (hlen f.payload (List.mem_map_of_mem hf)).2.1
  rw [Frame.report, if_pos hmax]
  rfl

def twoSends : List (SendArgument × Bool) :=
  [(.unique ⟨2, some [10, 11], by simp⟩, true), (.string ⟨[12], by decide⟩, false)]

theorem send_receive_roundtrip_two :
    reports (receiveAll true (fresh 2 fun _ => 0)
        (byteChunks (handed (sendAll (fresh 2 fun _ => 0) ⟨true, 0⟩ twoSends).2))).2 =
      [[10, 11], [12]].map fun m => ⟨some m, UInt64.ofNat m.length, {}⟩ :=
  send_receive_roundtrip (fresh 2 fun _ => 0) rfl (fun _ => 0) (by decide) rfl
    (byteChunks_isChunking _)

end MessageClient

end TarmIo.Net
