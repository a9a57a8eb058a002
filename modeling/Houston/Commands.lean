import Houston.Panel
import Houston.Transcript

/-!
# The remote table

Seen from the host, the firmware is a table of variables: a request reads all of them, a modify
packet writes one. Any sequence of such commands, however it arrives, does what it does to the
table.

* `Command` — a request or a modify packet.
* `perform` — **the table**: what the requests find in the variables, and what is left in them.
* `Store.judge_command` — the function of the firmware on a command.
* `remote_table` — the firmware, polled, is the table.
-/

namespace Houston

open Stuffing
open LiveDataPanel (modifyPacket)

variable {w : Firmware} {es : List Entry} {rows : List Row} {vars : Ptr → BitVec 32}
  {record : LiveDataPacket}

/-! ## The table -/

/-- What the host asks for. -/
inductive Command where
  | refresh
  | modify (record : LiveDataPacket)
  deriving DecidableEq

/-- The packet that it is asked for with. -/
def Command.toPacket : Command → Packet
  | .refresh => request
  | .modify record => modifyPacket record

/-- A record is written to the variable of its key, if that has its type. -/
def put (es : List Entry) (record : LiveDataPacket) (vars : Ptr → BitVec 32) : Ptr → BitVec 32 :=
  match es.find? fun e => e.Addressed record with
  | some e => if e.Fits record then Function.update vars e.ptr (record.over (vars e.ptr)) else vars
  | none => vars

/-- What a command does to the variables. -/
def Command.effect (es : List Entry) : Command → (Ptr → BitVec 32) → Ptr → BitVec 32
  | .refresh, vars => vars
  | .modify record, vars => put es record vars

/-- The variables, if a command asks for them. -/
def Command.finds : Command → (Ptr → BitVec 32) → List (Ptr → BitVec 32)
  | .refresh, vars => [vars]
  | .modify _, _ => []

/-- **The table**: the variables as each request finds them, and as they are in the end. -/
def perform (es : List Entry) :
    List Command → (Ptr → BitVec 32) → List (Ptr → BitVec 32) × (Ptr → BitVec 32)
  | [], vars => ([], vars)
  | .refresh :: commands, vars =>
    (vars :: (perform es commands vars).1, (perform es commands vars).2)
  | .modify record :: commands, vars => perform es commands (put es record vars)

theorem perform_cons (c : Command) (commands : List Command) (vars : Ptr → BitVec 32) :
    perform es (c :: commands) vars =
      (c.finds vars ++ (perform es commands (c.effect es vars)).1,
        (perform es commands (c.effect es vars)).2) := by
  cases c <;> rfl

/-! ## The function of the firmware -/

/-- At most one variable goes by a key. -/
theorem filter_addressed (hkeys : (es.map Entry.key).Nodup) (record : LiveDataPacket) :
    es.filter (fun e => e.Addressed record) =
      (es.find? fun e => e.Addressed record).toList := by
  induction es with
  | nil => rfl
  | cons e es ih =>
    obtain ⟨hnot, hrest⟩ := List.nodup_cons.mp hkeys
    by_cases he : e.Addressed record
    · have hpos : decide (e.Addressed record) = true := decide_eq_true he
      rw [List.filter_cons, if_pos hpos, List.find?_cons, hpos]
      refine congrArg (List.cons e) (List.filter_eq_nil_iff.mpr fun e' he' hsame => hnot ?_)
      have hkey : e'.key = e.key := (of_decide_eq_true hsame).trans he.symm
      exact hkey ▸ List.mem_map_of_mem he'
    · have hneg : decide (e.Addressed record) = false := decide_eq_false he
      rw [List.filter_cons, if_neg (Bool.eq_false_iff.mp hneg), List.find?_cons, hneg, ih hrest]

/-- **A modify scan is a write to the table.** -/
theorem stored_eq_put (htags : rows.map Row.tag = es.map Entry.tag)
    (hkeys : (es.map Entry.key).Nodup) : stored record rows vars = put es record vars := by
  have hwritten : stored record rows vars = (writtenTo record es).foldl
      (fun vars e => (storeValue vars (some e.ptr) record).getD vars) vars := by
    rw [stored_eq_tags, htags, List.filter_map, List.takeWhile_map, List.foldl_map]
    rfl
  have hstore : ∀ (vars : Ptr → BitVec 32) (p : Ptr), (storeValue vars (some p) record).getD vars =
      Function.update vars p (record.over (vars p)) :=
    fun vars p => store_eq (r := (record, some p)) rfl
  rw [hwritten, writtenTo, filter_addressed hkeys, put]
  cases es.find? fun e => e.Addressed record with
  | none => rfl
  | some e =>
    by_cases hfits : e.Fits record
    · have hpos : decide (e.Fits record) = true := decide_eq_true hfits
      rw [Option.toList_some, List.takeWhile_cons, if_pos hpos]
      simp only [if_pos hfits]
      exact hstore vars e.ptr
    · have hneg : ¬ decide (e.Fits record) = true := mt of_decide_eq_true hfits
      rw [Option.toList_some, List.takeWhile_cons, if_neg hneg]
      simp only [if_neg hfits]
      rfl

/-- A packet that fits is accepted, whatever comes behind it. -/
theorem admits_packet (p : Packet) (hfits : p.bytes.length ≤ 100) (bs : List Byte) :
    Admits (p.bytes ++ bs) ∧ announced (p.bytes ++ bs) = p.bytes.length := by
  obtain ⟨hsealed, hlen⟩ := p.framed_bytes
  obtain ⟨hannounced, hadmits⟩ := announced_append (p.framed_bytes).twelve_le bs
  exact ⟨hadmits.mpr ⟨hsealed, (Packet.good_bytes hfits).1⟩, hannounced.trans hlen.symm⟩

namespace Store

variable {t : Store}

/-- The records of the table report the variables. -/
theorem reported (htags : t.rows.map Row.tag = es.map Entry.tag)
    (hstring : ∀ e ∈ es, e.type ≠ .string) :
    List.Forall₂ (Entry.ReportedBy t.vars) es t.fresh := by
  have hpairs : List.Forall₂ (fun e r => Row.tag r = Entry.tag e) es t.rows := by
    have hequal : List.Forall₂ (· = ·) (t.rows.map Row.tag) (es.map Entry.tag) := by
      rwa [List.forall₂_eq_eq_eq]
    rw [List.forall₂_map_left_iff, List.forall₂_map_right_iff] at hequal
    exact hequal.flip
  have hall := (List.forall₂_and_left es t.rows).mpr ⟨hstring, hpairs⟩
  rw [fresh, List.forall₂_map_right_iff]
  exact hall.imp fun _ _ hrow => reported_of_tag t.vars hrow.2 hrow.1

/-- **A packet that fits** is answered, when its checksums have been reported. -/
theorem judge_packet (t : Store) (p : Packet) (hfits : p.bytes.length ≤ 100) (bs : List Byte) :
    ∃ said : List Saying, said.length = 3 ∧ said.filterMap Saying.records = [] ∧
      t.judge (p.bytes ++ bs) = (said ++ ((t.load (p.bytes ++ bs)).reply p.packetType).1,
        ((t.load (p.bytes ++ bs)).reply p.packetType).2) := by
  obtain ⟨-, hsize⟩ := admits_packet p hfits bs
  have hmatches : Matches (p.bytes ++ bs) := by
    refine (matches_congr ?_).mpr (Packet.good_bytes hfits).2
    rw [hsize, List.take_left, List.take_length]
  have htype : packetTypeOf (p.bytes ++ bs) = p.packetType := by
    rw [packetTypeOf, p.ofBytes_bytes]
    rfl
  refine ⟨[.number "CalculuatedCRC" (payloadChecksum (p.bytes ++ bs)) (by decide),
      .number "ReceivedCRC" (receivedChecksum (p.bytes ++ bs)) (by decide),
      .text "Processing packet" (by decide)], rfl, rfl, ?_⟩
  rw [judge, if_pos hmatches, htype]
  rfl

/-- The record in a modify packet. -/
theorem record_load (t : Store) (record : LiveDataPacket) (bs : List Byte) :
    (t.load ((modifyPacket record).bytes ++ bs)).record = record := by
  have hsize : payloadSize ((modifyPacket record).bytes ++ bs) = 8 := by
    rw [payloadSize, Packet.ofBytes_bytes, Packet.keySize_header, Packet.valueSize_header]
    exact record.length_toBytes
  have hbody : ((modifyPacket record).bytes ++ bs).drop 12 =
      record.toBytes ++ wordBytes 4 (crc32 record.toBytes 0) ++ bs := by
    rw [LiveDataPanel.bytes_modifyPacket, List.append_assoc,
      List.drop_left' (DashboardPacketHeader.length_toBytes _)]
  have hlen : (record.toBytes ++ wordBytes 4 (crc32 record.toBytes 0)).length = 8 + 4 := by
    rw [List.length_append, LiveDataPacket.length_toBytes, length_wordBytes]
  rw [Store.record, load, hsize, hbody, List.take_left' hlen, List.append_assoc,
    LiveDataPacket.ofBytes_toBytes]

theorem length_modifyPacket_le (record : LiveDataPacket) :
    (modifyPacket record).bytes.length ≤ 100 := by
  have hkey : (modifyPacket record).key.length = 8 := record.length_toBytes
  rw [Packet.length_bytes, hkey]
  show 12 + 8 + 0 + 4 ≤ 100
  decide

theorem length_toPacket_le (c : Command) : c.toPacket.bytes.length ≤ 100 := by
  cases c with
  | refresh => decide
  | modify record => exact length_modifyPacket_le record

/-- **A command** is carried out on the memory as it is on the table; a request is answered by the
records of the table. -/
theorem judge_command (hkeys : (es.map Entry.key).Nodup) (htags : t.rows.map Row.tag = es.map Entry.tag)
    (c : Command) (bs : List Byte) :
    (t.judge (c.toPacket.bytes ++ bs)).1.filterMap Saying.records =
        (c.finds t.vars).map (fun _ => t.fresh) ∧
      (t.judge (c.toPacket.bytes ++ bs)).2.rows.map Row.tag = es.map Entry.tag ∧
      (t.judge (c.toPacket.bytes ++ bs)).2.vars = c.effect es t.vars := by
  obtain ⟨said, -, hsaid, hjudge⟩ := t.judge_packet c.toPacket (length_toPacket_le c) bs
  rw [hjudge, List.filterMap_append, hsaid, List.nil_append]
  cases c with
  | refresh =>
    have hreply : (t.load (request.bytes ++ bs)).reply request.packetType =
        ([.text "Live Data Requested" (by decide), .response t.fresh t.length_fresh_le],
          (t.load (request.bytes ++ bs)).refresh) := if_pos rfl
    rw [Command.toPacket, hreply]
    exact ⟨rfl, (map_tag_fresh _ _).trans htags, rfl⟩
  | modify record =>
    have hne : ¬ (modifyPacket record).packetType = PacketID.requestLiveData.code := by
      show ¬ PacketID.modify.code = PacketID.requestLiveData.code
      decide
    have hmodify : (modifyPacket record).packetType = PacketID.modify.code := rfl
    rw [Command.toPacket, reply, if_neg hne, if_pos hmodify, t.record_load record bs]
    refine ⟨?_, htags, stored_eq_put htags hkeys⟩
    show List.filterMap Saying.records (Saying.text _ _ :: if _ then _ else _) = []
    split_ifs <;> rfl

/-- **A sequence of commands** does to the memory what it does to the table. -/
theorem converse_commands (hkeys : (es.map Entry.key).Nodup) :
    ∀ (commands : List Command) {t : Store}, t.rows.map Row.tag = es.map Entry.tag →
      (t.converse (commands.flatMap fun c => c.toPacket.bytes)).2.vars =
          (perform es commands t.vars).2 ∧
        ((∀ e ∈ es, e.type ≠ .string) →
          List.Forall₂ (fun vars records => List.Forall₂ (Entry.ReportedBy vars) es records)
            (perform es commands t.vars).1
            ((t.converse (commands.flatMap fun c => c.toPacket.bytes)).1.filterMap
              Saying.records)) := by
  intro commands
  induction commands with
  | nil =>
    intro t _
    rw [List.flatMap_nil, t.converse_nil]
    exact ⟨rfl, fun _ => .nil⟩
  | cons c commands ih =>
    intro t htags
    rw [List.flatMap_cons]
    generalize hbs : (commands.flatMap fun c => c.toPacket.bytes) = bs
    rw [hbs] at ih
    obtain ⟨hadmits, hsize⟩ := admits_packet c.toPacket (length_toPacket_le c) bs
    obtain ⟨hrecords, htags', hvars⟩ := judge_command hkeys htags c bs
    obtain ⟨hvars', hheard⟩ := ih htags'
    have hle : announced (c.toPacket.bytes ++ bs) ≤ (c.toPacket.bytes ++ bs).length := by
      rw [hsize, List.length_append]
      exact Nat.le_add_right _ _
    -- what is left of the stream are the other commands
    rw [t.converse_of_admits hadmits hle, hsize, List.drop_left, perform_cons, ← hvars]
    refine ⟨hvars', fun hstring => ?_⟩
    rw [List.filterMap_append, List.filterMap_append, hrecords, greeting_of_admits hadmits,
      List.filterMap_cons_none rfl, List.filterMap_nil, List.nil_append]
    refine List.rel_append ?_ (hheard hstring)
    cases c with
    | refresh => exact .cons (reported htags hstring) .nil
    | modify record => exact .nil

end Store

/-- What comes of a sequence of commands. -/
theorem outcome_commands (h : Idle w) (htable : Registered w es)
    (hkeys : (es.map Entry.key).Nodup) {commands : List Command} {slots : List Slot}
    (hstream : stream slots = commands.flatMap fun c => c.toPacket.bytes) :
    ∃ sayings : List Saying,
      (w.feed (stream slots)).outcome.1 = sentFrames w.trace ++ sayings.map Saying.frame ∧
      (w.feed (stream slots)).outcome.2.vars = (perform es commands w.vars).2 ∧
      ((∀ e ∈ es, e.type ≠ .string) →
        List.Forall₂ (fun vars records => List.Forall₂ (Entry.ReportedBy vars) es records)
          (perform es commands w.vars).1 (sayings.filterMap Saying.records)) := by
  have hpending : (w.feed (stream slots)).pending = commands.flatMap fun c => c.toPacket.bytes := by
    rw [pending_feed, pending_of_waiting h.waiting, h.empty, hstream, List.nil_append]
  have hgreeted : (w.feed (stream slots)).greeted = 0 := greeted_of_waiting h.waiting
  rw [Firmware.outcome, hpending, hgreeted, List.drop_zero]
  exact ⟨_, rfl, Store.converse_commands hkeys commands (t := w.store) htable.rows⟩

/-- **The remote table.** A firmware that waits for a header, with its variables under different
keys, is sent a sequence of commands, in pieces of any sizes. When they come to an end, the
variables are as the table has them; and the responses that were sent, which are all sayings,
report for each request, in order, the variables as the table had them then. -/
theorem remote_table (h : Idle w) (htable : Registered w es) (hkeys : (es.map Entry.key).Nodup)
    (hstring : ∀ e ∈ es, e.type ≠ .string) {commands : List Command} {slots : List Slot}
    (hstream : stream slots = commands.flatMap fun c => c.toPacket.bytes) :
    ∃ v, runSchedule slots w = some v ∧ (Quiet v →
      v.vars = (perform es commands w.vars).2 ∧
      ∃ sayings : List Saying,
        sentFrames v.trace = sentFrames w.trace ++ sayings.map Saying.frame ∧
        List.Forall₂ (fun vars records => List.Forall₂ (Entry.ReportedBy vars) es records)
          (perform es commands w.vars).1 (sayings.filterMap Saying.records)) := by
  obtain ⟨v, hrun, hend⟩ := schedule_outcome h.reachable slots
  obtain ⟨sayings, hsaid, hvars, hheard⟩ := outcome_commands h htable hkeys hstream
  refine ⟨v, hrun, fun hquiet => ?_⟩
  rw [← hend hquiet] at hsaid hvars
  exact ⟨hvars, sayings, hsaid, hheard hstring⟩

/-- A variable is set and read. -/
def setAndRead : List Command := [.modify ⟨0, ValueType.uint32.bits 16, 9⟩, .refresh]

/-- Commands that come in at once, and an update for each of them. -/
def commandsAtOnce (commands : List Command) : List Slot :=
  .arrive (commands.flatMap fun c => c.toPacket.bytes) ::
    List.replicate commands.length (.update openTransport)

theorem stream_commandsAtOnce (commands : List Command) :
    stream (commandsAtOnce commands) = commands.flatMap fun c => c.toPacket.bytes := by
  have hupdates : stream (List.replicate commands.length (.update openTransport)) = [] :=
    List.flatMap_eq_nil_iff.mpr fun slot hslot => by rw [List.eq_of_mem_replicate hslot]; rfl
  exact (congrArg _ hupdates).trans (List.append_nil _)

/-- The table sets a variable and reads it. -/
theorem remote_table_one :
    ∃ v, runSchedule (commandsAtOnce setAndRead) oneVariable = some v ∧ Quiet v ∧
      v.vars = (perform [⟨0, .uint32, 0⟩] setAndRead oneVariable.vars).2 ∧
      ∃ sayings : List Saying,
        sentFrames v.trace = sentFrames oneVariable.trace ++ sayings.map Saying.frame ∧
        List.Forall₂
          (fun vars records => List.Forall₂ (Entry.ReportedBy vars) [⟨0, .uint32, 0⟩] records)
          (perform [⟨0, .uint32, 0⟩] setAndRead oneVariable.vars).1
          (sayings.filterMap Saying.records) := by
  obtain ⟨v, hrun, htable⟩ := remote_table ⟨reachable_oneVariable, rfl, rfl⟩
    registered_oneVariable (by decide) (by decide) (stream_commandsAtOnce setAndRead)
  have hquiet := reachable_oneVariable.quiet_of_endsWaiting hrun (by decide +kernel)
  exact ⟨v, hrun, hquiet, htable hquiet⟩

/-! ## One variable -/

/-- The record that a command has for a variable. -/
def Command.valueFor (e : Entry) : Command → Option LiveDataPacket
  | .refresh => none
  | .modify record => if e.Addressed record ∧ e.Fits record then some record else none

section Variable

variable (hkeys : (es.map Entry.key).Nodup) (hptrs : (es.map Entry.ptr).Nodup) {e : Entry}
  (he : e ∈ es)
include hkeys hptrs he

/-- A write to the table is one to the variable of its key. -/
theorem put_at (record : LiveDataPacket) (vars : Ptr → BitVec 32) :
    put es record vars e.ptr =
      if e.Addressed record ∧ e.Fits record then record.over (vars e.ptr) else vars e.ptr := by
  rw [put]
  cases hfind : es.find? fun e => e.Addressed record with
  | none =>
    have hnot : ¬ e.Addressed record := fun haddressed =>
      List.find?_eq_none.mp hfind e he (decide_eq_true haddressed)
    rw [if_neg fun h => hnot h.1]
  | some e' =>
    have he' : e' ∈ es := List.mem_of_find?_eq_some hfind
    have haddressed' : e'.Addressed record := of_decide_eq_true
      (List.find?_some (p := fun e : Entry => decide (e.Addressed record)) hfind)
    by_cases hsame : e' = e
    · rw [hsame] at haddressed'
      simp only [hsame, haddressed', true_and]
      split_ifs
      · exact Function.update_self _ _ _
      · rfl
    · have hnot : ¬ e.Addressed record := fun haddressed =>
        hsame (List.inj_on_of_nodup_map hkeys he' he (haddressed'.trans haddressed.symm))
      have hptr : e.ptr ≠ e'.ptr := fun hptr =>
        hsame (List.inj_on_of_nodup_map hptrs he' he hptr.symm)
      rw [if_neg fun h => hnot h.1]
      simp only
      split_ifs
      · exact Function.update_of_ne hptr _ _
      · rfl

/-- What becomes of a variable of the table is up to the records for it. -/
theorem perform_at : ∀ (commands : List Command) (vars : Ptr → BitVec 32),
    (perform es commands vars).2 e.ptr =
      (commands.filterMap (Command.valueFor e)).foldl (fun old record => record.over old)
        (vars e.ptr) := by
  intro commands
  induction commands with
  | nil => exact fun _ => rfl
  | cons command commands ih =>
    intro vars
    cases command with
    | refresh => exact ih vars
    | modify record =>
      rw [perform, ih, put_at hkeys hptrs he, List.filterMap_cons, Command.valueFor]
      split_ifs <;> rfl

end Variable

/-- What is not in the table is left alone. -/
theorem perform_frame {p : Ptr} (hp : ∀ e ∈ es, e.ptr ≠ p) :
    ∀ (commands : List Command) (vars : Ptr → BitVec 32),
      (perform es commands vars).2 p = vars p := by
  intro commands
  induction commands with
  | nil => exact fun _ => rfl
  | cons command commands ih =>
    intro vars
    cases command with
    | refresh => exact ih vars
    | modify record =>
      rw [perform, ih, put]
      cases hfind : es.find? fun e => e.Addressed record with
      | none => rfl
      | some e =>
        simp only
        split_ifs
        · exact Function.update_of_ne (hp e (List.mem_of_find?_eq_some hfind)).symm _ _
        · rfl

/-- **What a variable ends up with.** When the commands have come to an end, each variable under
a key and at an address of its own is what the records for it, of its key and its type, make of
it one after another; and what is not registered has kept its value. -/
theorem last_write (h : Idle w) (htable : Registered w es) (hkeys : (es.map Entry.key).Nodup)
    (hptrs : (es.map Entry.ptr).Nodup) {commands : List Command} {slots : List Slot}
    (hstream : stream slots = commands.flatMap fun c => c.toPacket.bytes) :
    ∃ v, runSchedule slots w = some v ∧ (Quiet v →
      (∀ e ∈ es, v.vars e.ptr =
        (commands.filterMap (Command.valueFor e)).foldl (fun old record => record.over old)
          (w.vars e.ptr)) ∧
      ∀ p, (∀ e ∈ es, e.ptr ≠ p) → v.vars p = w.vars p) := by
  obtain ⟨v, hrun, hend⟩ := schedule_outcome h.reachable slots
  obtain ⟨-, -, hvars, -⟩ := outcome_commands h htable hkeys hstream
  refine ⟨v, hrun, fun hquiet => ?_⟩
  rw [← hend hquiet] at hvars
  have hsame : v.vars = (perform es commands w.vars).2 := hvars
  rw [hsame]
  exact ⟨fun e he => perform_at hkeys hptrs he commands w.vars,
    fun p hp => perform_frame hp commands w.vars⟩

/-- A variable is set twice, once with a record of another type in between. -/
def setTwice : List Command :=
  [.modify ⟨0, ValueType.uint32.bits 16, 9⟩, .modify ⟨0, ValueType.float.bits 16, 3⟩,
    .modify ⟨0, ValueType.uint32.bits 16, 5⟩]

/-- It ends up with the last value of its type. -/
theorem last_write_twice :
    ∃ v, runSchedule (commandsAtOnce setTwice) oneVariable = some v ∧ Quiet v ∧
      (∀ e ∈ [(⟨0, .uint32, 0⟩ : Entry)], v.vars e.ptr =
        (setTwice.filterMap (Command.valueFor e)).foldl (fun old record => record.over old)
          (oneVariable.vars e.ptr)) ∧
      ∀ p, (∀ e ∈ [(⟨0, .uint32, 0⟩ : Entry)], e.ptr ≠ p) → v.vars p = oneVariable.vars p := by
  obtain ⟨v, hrun, hlast⟩ := last_write ⟨reachable_oneVariable, rfl, rfl⟩
    registered_oneVariable (by decide) (by decide) (stream_commandsAtOnce setTwice)
  have hquiet := reachable_oneVariable.quiet_of_endsWaiting hrun (by decide +kernel)
  exact ⟨v, hrun, hquiet, hlast hquiet⟩

end Houston
