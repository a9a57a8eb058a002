import Houston.Producer
import Houston.Response

/-!
# What the firmware says

The firmware sends two kinds of packets: those of the five senders, when they fit, and
responses to requests. The host that `main` sets up understands each of them.

* `Saying` — a call of a sender that fits, or a response.
* `Host.Holds.hear` — the frame of a saying puts what it says into the queue of its kind, and
  nothing is printed.
* `Host.Holds.hear_all` — so do the frames of a sequence of sayings.
-/

namespace Houston

open Stuffing

/-- Something that the firmware says: a call of a sender, of at most 99 bytes, or a response. -/
inductive Saying where
  | call (c : Call) (h : c.size ≤ 99)
  | response (records : List LiveDataPacket) (h : records.length ≤ 5)

namespace Saying

/-- The packet that it is said with. -/
def packet : Saying → List Byte
  | .call c _ => c.packet
  | .response records _ => responsePacket records

/-- The frame that it is said with. -/
def frame (s : Saying) : List Byte := stuff s.packet

/-- The telemetry in it. -/
def telemetry : Saying → Option (List Byte × List Byte)
  | .call c _ => c.telemetry
  | .response _ _ => none

/-- The alert in it. -/
def alertText : Saying → Option (List Byte)
  | .call c _ => c.alertText
  | .response _ _ => none

/-- The records in it. -/
def records : Saying → Option (List LiveDataPacket)
  | .call _ _ => none
  | .response records _ => some records

/-- An alert with a text of the program's. -/
def text (str : String) (h : (Call.alert (literal str)).size ≤ 99) : Saying :=
  .call (.alert (literal str)) h

theorem size_number {key : String} (h : (literal key).bytes.length ≤ 79) (value : BitVec 32) :
    (Call.telemetryUint32 (literal key) value).size ≤ 99 := by
  rw [Call.size, Call.key, Call.value, length_wordBytes]
  omega

/-- A number under a key of the program's. -/
def number (key : String) (value : BitVec 32) (h : (literal key).bytes.length ≤ 79) : Saying :=
  .call (.telemetryUint32 (literal key) value) (size_number h value)

/-- The packet, as the protocol intends it. -/
def toPacket : Saying → Packet
  | .call c h => c.toPacket (Nat.le_succ_of_le h)
  | .response records h => responseOf records h

theorem bytes_toPacket : ∀ s : Saying, s.toPacket.bytes = s.packet
  | .call _ h => Call.bytes_toPacket (Nat.le_succ_of_le h)
  | .response records h => bytes_responseOf records h

theorem length_packet_le (s : Saying) : s.packet.length ≤ 99 := by
  cases s with
  | call c h =>
    have hfits : c.size ≤ 100 := Nat.le_succ_of_le h
    rw [packet, Call.length_packet, Call.keyLen_of_fits hfits, Call.valueLen_of_fits hfits]
    exact h
  | response records h =>
    rw [packet, length_responsePacket]
    omega

/-- Frames are lines of their own. -/
theorem delimited_frames (sayings : List Saying) :
    ∀ f ∈ sayings.map frame, Delimited f ∧ f ≠ [0] := by
  intro f hf
  obtain ⟨s, -, rfl⟩ := List.mem_map.mp hf
  exact ⟨delimited_stuff s.packet, stuff_ne_zero s.packet⟩

end Saying

/-! ## What the host makes of it -/

/-- **What is said is heard**: the frame of a saying puts what it says into the queue of its
kind, and nothing is printed. -/
theorem Host.Holds.hear {h : Host} {telemetry : List (List Byte × List Byte)}
    {alerts : List (List Byte)} {responses : List (List LiveDataPacket)}
    (hq : h.Holds telemetry alerts responses) (s : Saying) :
    ∃ h', dispatchData s.frame h = some h' ∧
      h'.Holds (telemetry ++ s.telemetry.toList) (alerts ++ s.alertText.toList)
        (responses ++ s.records.toList) ∧ h'.cerr = h.cerr := by
  have hcap : s.packet.length ≤ Alphabet.cap Byte :=
    Nat.le_trans s.length_packet_le (by decide)
  have hframe : s.frame.length = s.packet.length + 2 := length_stuff_short hcap
  have hlen := s.length_packet_le
  -- a host that returns has not printed anything
  have hcerr : ∀ h', dispatchData s.frame h = some h' → h'.cerr = h.cerr := by
    intro h' hrun
    rcases dispatchData_cases (show s.frame.length < 2 ^ 31 by omega) h with
      ⟨hnone, -⟩ | ⟨p, rest, -, ⟨-, hnull⟩ | ⟨c, consumer, -, -, -, hset⟩⟩
    · refine absurd s.toPacket.sealed_bytes (hnone _ ?_)
      rw [Saying.bytes_toPacket]
      exact unstuff_stuff_short hcap
    · rw [hnull] at hrun
      cases hrun
    · rw [hset] at hrun
      cases hrun
      rfl
  suffices hsome : ∃ h', dispatchData s.frame h = some h' ∧
      h'.Holds (telemetry ++ s.telemetry.toList) (alerts ++ s.alertText.toList)
        (responses ++ s.records.toList) by
    obtain ⟨h', hrun, hholds⟩ := hsome
    exact ⟨h', hrun, hholds, hcerr h' hrun⟩
  cases s with
  | call c hsize =>
    obtain ⟨h', hrun, hholds⟩ := hq.dispatch hsize
    exact ⟨h', hrun, by rwa [Saying.records, Option.toList_none, List.append_nil]⟩
  | response records hrecords =>
    have hhandler : h.dispatcher.getHandler PacketID.responseLiveData.code = some 2 := by
      rw [hq.dispatcher]
      rfl
    refine ⟨_, dispatchData_response hrecords hhandler hq.liveData, hq.dispatcher, ?_, ?_,
      Host.consumers_setConsumer_self ..⟩
    · rw [Host.consumers_setConsumer_of_ne (by decide), hq.alert]
      exact congrArg DataConsumer.alert (List.append_nil _).symm
    · rw [Host.consumers_setConsumer_of_ne (by decide), hq.telemetry]
      exact congrArg DataConsumer.telemetry (List.append_nil _).symm

theorem filterMap_cons_toList {α β : Type} (f : α → Option β) (a : α) (l : List α) :
    (a :: l).filterMap f = (f a).toList ++ l.filterMap f := by
  rw [List.filterMap_cons]
  cases f a <;> rfl

/-- **A sequence of sayings** is heard in its order. -/
theorem Host.Holds.hear_all : ∀ (sayings : List Saying) {h : Host}
    {telemetry : List (List Byte × List Byte)} {alerts : List (List Byte)}
    {responses : List (List LiveDataPacket)}, h.Holds telemetry alerts responses →
    ∃ h', produce (sayings.map Saying.frame) h = some h' ∧
      h'.Holds (telemetry ++ sayings.filterMap Saying.telemetry)
        (alerts ++ sayings.filterMap Saying.alertText)
        (responses ++ sayings.filterMap Saying.records) ∧ h'.cerr = h.cerr := by
  intro sayings
  induction sayings with
  | nil =>
    intro h telemetry alerts responses hq
    refine ⟨h, rfl, ?_, rfl⟩
    simpa only [List.filterMap_nil, List.append_nil] using hq
  | cons s sayings ih =>
    intro h telemetry alerts responses hq
    obtain ⟨h₁, hfirst, hq₁, hcerr₁⟩ := hq.hear s
    obtain ⟨h', hrest, hq', hcerr⟩ := ih hq₁
    refine ⟨h', ?_, ?_, hcerr.trans hcerr₁⟩
    · rw [List.map_cons, produce, List.foldlM_cons]
      exact Option.bind_eq_some_iff.mpr ⟨h₁, hfirst, hrest⟩
    · rwa [filterMap_cons_toList, filterMap_cons_toList, filterMap_cons_toList,
        ← List.append_assoc, ← List.append_assoc, ← List.append_assoc]

end Houston
