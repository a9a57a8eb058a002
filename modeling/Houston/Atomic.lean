import Houston.Commands
import Houston.Uplink

/-!
# Commands, one at a time

Commands come in piece by piece, and meanwhile the program on the board goes on: it polls, it
sends, and it writes to its variables. Nonetheless every command is carried out at one moment.

* `Effect` — what happens to the variables, in one order for commands and writes.
* `after`, `found` — the variables in the end, and as the requests find them.
* `Obeys` — **the invariant**: the variables are what the effects make of them, and the responses
  are what the requests find.
* `Obeys.op` — whatever the program does keeps it, as long as only commands come in.
-/

namespace Houston

open Relation Polling

variable {w v w₀ : Firmware} {es : List Entry} {bs later : List Byte} {ahead : List Command}

/-! ## Effects -/

/-- Something that happens to the variables. -/
inductive Effect where
  | command (c : Command)
  | assign (ptr : Ptr) (value : BitVec 32)

namespace Effect

/-- What it does to the variables. -/
def apply (es : List Entry) : Effect → (Ptr → BitVec 32) → Ptr → BitVec 32
  | .command c, vars => c.effect es vars
  | .assign ptr value, vars => Function.update vars ptr value

/-- The variables, if they are asked for. -/
def finds : Effect → (Ptr → BitVec 32) → List (Ptr → BitVec 32)
  | .command c, vars => c.finds vars
  | .assign _ _, _ => []

/-- The command, if it is one. -/
def command? : Effect → Option Command
  | .command c => some c
  | .assign _ _ => none

/-- The write of the program, if it is one. -/
def assign? : Effect → Option (Ptr × BitVec 32)
  | .command _ => none
  | .assign ptr value => some (ptr, value)

end Effect

/-- **The variables in the end.** -/
def after (es : List Entry) (effects : List Effect) (vars : Ptr → BitVec 32) : Ptr → BitVec 32 :=
  effects.foldl (fun vars e => e.apply es vars) vars

/-- **The variables as the requests find them.** -/
def foundBy (es : List Entry) : List Effect → (Ptr → BitVec 32) → List (Ptr → BitVec 32)
  | [], _ => []
  | e :: effects, vars => e.finds vars ++ foundBy es effects (e.apply es vars)

theorem after_concat (effects : List Effect) (e : Effect) (vars : Ptr → BitVec 32) :
    after es (effects ++ [e]) vars = e.apply es (after es effects vars) :=
  List.foldl_concat _ _ _ _

theorem foundBy_append (effects' : List Effect) : ∀ (effects : List Effect)
    (vars : Ptr → BitVec 32), foundBy es (effects ++ effects') vars =
      foundBy es effects vars ++ foundBy es effects' (after es effects vars) := by
  intro effects
  induction effects with
  | nil => exact fun vars => rfl
  | cons e effects ih =>
    intro vars
    rw [List.cons_append, foundBy, ih, foundBy, List.append_assoc]
    rfl

theorem foundBy_concat (e : Effect) (effects : List Effect) (vars : Ptr → BitVec 32) :
    foundBy es (effects ++ [e]) vars =
      foundBy es effects vars ++ e.finds (after es effects vars) :=
  (foundBy_append [e] effects vars).trans (congrArg _ (List.append_nil _))

/-- What a request finds is what some of the effects have made of the variables. -/
theorem exists_take_of_mem : ∀ {effects : List Effect} {found vars : Ptr → BitVec 32},
    found ∈ foundBy es effects vars → ∃ k, found = after es (effects.take k) vars := by
  intro effects
  induction effects with
  | nil => exact fun hfound => absurd hfound List.not_mem_nil
  | cons e effects ih =>
    intro found vars hfound
    rcases List.mem_append.mp hfound with hfirst | hrest
    · refine ⟨0, ?_⟩
      rcases e with ⟨- | record⟩ | ⟨ptr, value⟩
      · exact List.mem_singleton.mp hfirst
      · exact absurd hfirst List.not_mem_nil
      · exact absurd hfirst List.not_mem_nil
    · obtain ⟨k, hk⟩ := ih hrest
      exact ⟨k + 1, hk⟩

/-! ## A stream of commands -/

/-- The firmware finds the first command of a stream of commands, however much of it has come
in. -/
theorem aligned (hstream : bs ++ later = ahead.flatMap fun c => c.toPacket.bytes)
    (hlen : 12 < bs.length) :
    ∃ c rest, ahead = c :: rest ∧ Admits bs ∧ announced bs = c.toPacket.bytes.length ∧
      (announced bs ≤ bs.length → ∃ tail, bs = c.toPacket.bytes ++ tail ∧
        tail ++ later = rest.flatMap fun c => c.toPacket.bytes) := by
  cases ahead with
  | nil =>
    obtain ⟨rfl, -⟩ := List.append_eq_nil_iff.mp hstream
    cases hlen
  | cons c rest =>
    rw [List.flatMap_cons] at hstream
    obtain ⟨hadmits, hsize⟩ := admits_packet c.toPacket (Store.length_toPacket_le c)
      (rest.flatMap fun c => c.toPacket.bytes)
    -- the header decides how long the packet is, and it has come in
    have hfront : bs.take 12 =
        (c.toPacket.bytes ++ rest.flatMap fun c => c.toPacket.bytes).take 12 := by
      rw [← hstream, List.take_append_of_le_length hlen.le]
    have hannounced := (announced_congr hfront).trans hsize
    refine ⟨c, rest, rfl, (admits_congr hfront).mpr hadmits, hannounced, fun hle => ?_⟩
    rw [hannounced] at hle
    obtain ⟨tail, htail⟩ : c.toPacket.bytes <+: bs :=
      List.prefix_of_prefix_length_le (List.prefix_append _ _) (hstream ▸ List.prefix_append _ _) hle
    refine ⟨tail, htail.symm, ?_⟩
    rw [← htail, List.append_assoc] at hstream
    exact List.append_cancel_left hstream

/-! ## The invariant -/

/-- The program polls, sends, or writes to a variable: nothing comes in, and no variable is
registered. -/
def Op.Local (op : Op) : Prop :=
  op.Allowed ∧ match op with
    | .register _ _ _ | .arrive _ => False
    | _ => True

/-- What the program writes. -/
def Op.assigned : Op → List (Ptr × BitVec 32)
  | .assign ptr value => [(ptr, value)]
  | _ => []

/-- What has happened: to the variables, and what was said. -/
structure History where
  effects : List Effect
  sayings : List Saying

/-- More has happened. -/
def History.extend (effects : List Effect) (sayings : List Saying) (h : History) : History :=
  ⟨h.effects ++ effects, h.sayings ++ sayings⟩

theorem History.extend_extend (h : History) (effects effects' : List Effect)
    (sayings sayings' : List Saying) :
    (h.extend effects sayings).extend effects' sayings' =
      h.extend (effects ++ effects') (sayings ++ sayings') := by
  simp only [extend, List.append_assoc]

theorem History.extend_nil (h : History) : h.extend [] [] = h := by
  simp only [extend, List.append_nil]

/-- **The invariant**: what is in the firmware goes with what has happened since `w₀`; the
commands that are ahead are in what it has still to read and in what comes in later. -/
structure Obeys (es : List Entry) (w₀ : Firmware) (h : History) (ahead : List Command)
    (later : List Byte) (w : Firmware) : Prop where
  sound : Sound w es
  listening : w.Listening
  pending : w.pending ++ later = ahead.flatMap fun c => c.toPacket.bytes
  vars : w.vars = after es h.effects w₀.vars
  said : sentFrames w.trace = sentFrames w₀.trace ++ h.sayings.map Saying.frame
  responses : List.Forall₂ (fun vars records => List.Forall₂ (Entry.ReportedBy vars) es records)
    (foundBy es h.effects w₀.vars) (h.sayings.filterMap Saying.records)

namespace Obeys

variable {h : History}

/-- Before anything has happened. -/
theorem start (hidle : Idle w₀) (htable : Registered w₀ es) : Obeys es w₀ ⟨[], []⟩ [] [] w₀ where
  sound := .of_waiting htable hidle.waiting
  listening := Or.inl hidle.waiting
  pending := by rw [pending_of_waiting hidle.waiting, hidle.empty]; rfl
  vars := rfl
  said := (List.append_nil _).symm
  responses := .nil

/-- Further commands are on their way. -/
theorem append (ho : Obeys es w₀ h ahead later w) (commands : List Command) :
    Obeys es w₀ h (ahead ++ commands)
      (later ++ commands.flatMap fun c => c.toPacket.bytes) w :=
  { ho with pending := by rw [← List.append_assoc, ho.pending, List.flatMap_append] }

/-- Bytes come in. -/
theorem feed {bytes : List Byte} (ho : Obeys es w₀ h ahead (bytes ++ later) w) :
    Obeys es w₀ h ahead later (w.feed bytes) where
  sound := ho.sound.feed bytes
  listening := ho.listening
  pending := by rw [pending_feed, List.append_assoc, ho.pending]
  vars := ho.vars
  said := ho.said
  responses := ho.responses

/-- The program sends a packet. -/
theorem send {c : Call} (hc : c.size ≤ 99) (ho : Obeys es w₀ h ahead later w) :
    Obeys es w₀ (h.extend [] [.call c hc]) ahead later (w.send c) where
  sound := ho.sound.send c
  listening := ho.listening
  pending := ho.pending
  vars := by
    rw [History.extend, List.append_nil]
    exact ho.vars
  said := by
    rw [sent_send, ho.said, History.extend, List.map_append, List.append_assoc]
    rfl
  responses := by
    rw [History.extend, List.append_nil, List.filterMap_append, List.filterMap_cons_none rfl,
      List.filterMap_nil, List.append_nil]
    exact ho.responses

/-- The program writes to a variable. -/
theorem assign (ptr : Ptr) (value : BitVec 32) (ho : Obeys es w₀ h ahead later w) :
    Obeys es w₀ (h.extend [.assign ptr value] []) ahead later
      (w.setVars (Function.update w.vars ptr value)) where
  sound := ⟨⟨ho.sound.table.count, ho.sound.table.rows⟩, ho.sound.header⟩
  listening := ho.listening
  pending := ho.pending
  vars := by
    rw [History.extend, after_concat, ← ho.vars]
    rfl
  said := by
    rw [History.extend, List.append_nil]
    exact ho.said
  responses := by
    rw [History.extend, foundBy_concat, Effect.finds, List.append_nil, List.append_nil]
    exact ho.responses

/-- **One read**: a header is accepted, or a command is carried out. -/
theorem readStep (hkeys : (es.map Entry.key).Nodup) (hstring : ∀ e ∈ es, e.type ≠ .string)
    (ho : Obeys es w₀ h ahead later w) (hstep : ReadStep w v) :
    ∃ done rest more, ahead = done ++ rest ∧
      Obeys es w₀ (h.extend (done.map .command) more) rest later v := by
  have hsound := ho.sound.readStep hstep
  have hlistening := Firmware.Listening.step hstep
  cases hstep with
  | header hstatus hlen =>
    have hincoming := pending_of_waiting hstatus
    obtain ⟨c, rest, rfl, hadmits, -, -⟩ := aligned ho.pending (hincoming ▸ hlen)
    obtain ⟨hsaid, hstore⟩ := greet_takeHeader hlen
    obtain ⟨hsame | hdropped, -⟩ := pending_takeHeader hstatus hlen
    · refine ⟨[], c :: rest, greeting w.incoming, rfl, hsound, hlistening, ?_, ?_, ?_, ?_⟩
      · rw [hsame.2, ho.pending]
      · rw [List.map_nil, History.extend, List.append_nil, ← ho.vars]
        exact congrArg Store.vars hstore
      · rw [hsaid, ho.said, History.extend, List.map_append, List.append_assoc]
      · rw [List.map_nil, History.extend, List.append_nil, List.filterMap_append,
          greeting_of_admits (hincoming ▸ hadmits), List.filterMap_cons_none rfl,
          List.filterMap_nil, List.append_nil]
        exact ho.responses
    · -- the headers of commands are never dropped
      exact absurd hadmits hdropped.1
  | payload hstatus hlen =>
    obtain ⟨-, hle, hpending, -⟩ := pending_takePayload ho.sound hstatus hlen
    have htwelve : 12 < w.pending.length := lt_of_lt_of_le (Nat.lt_of_lt_of_le (by decide)
      (sixteen_le_announced w.pending)) hle
    obtain ⟨c, rest, rfl, -, hsize, hfront⟩ := aligned ho.pending htwelve
    obtain ⟨tail, htail, hrest⟩ := hfront hle
    obtain ⟨hsaid, hstore⟩ := judge_takePayload ho.sound hstatus hlen
    obtain ⟨hrecords, -, hvars⟩ :=
      Store.judge_command (t := w.store) hkeys ho.sound.table.rows c tail
    have hafter : after es (h.extend [.command c] []).effects w₀.vars = c.effect es w.vars := by
      rw [ho.vars]
      exact after_concat h.effects (.command c) w₀.vars
    refine ⟨[c], rest, (w.store.judge w.pending).1, rfl, hsound, hlistening, ?_, ?_, ?_, ?_⟩
    · rw [hpending, hsize, htail, List.drop_left, hrest]
    · refine Eq.trans ?_ hafter.symm
      rw [← htail] at hvars
      exact (congrArg Store.vars hstore).trans hvars
    · rw [hsaid, ho.said, History.extend, List.map_append, List.append_assoc]
    · rw [← htail] at hrecords
      rw [List.map_cons, List.map_nil, History.extend, foundBy_concat, List.filterMap_append,
        hrecords, ← ho.vars]
      -- a request is answered with what it finds, a modify packet with no records
      refine List.rel_append ho.responses ?_
      cases c with
      | refresh => exact .cons (Store.reported (t := w.store) ho.sound.table.rows hstring) .nil
      | modify record => exact .nil

/-- A sequence of reads. -/
theorem steps (hkeys : (es.map Entry.key).Nodup) (hstring : ∀ e ∈ es, e.type ≠ .string)
    (ho : Obeys es w₀ h ahead later w) (hsteps : ReflTransGen ReadStep w v) :
    ∃ done rest more, ahead = done ++ rest ∧
      Obeys es w₀ (h.extend (done.map .command) more) rest later v := by
  induction hsteps with
  | refl => exact ⟨[], ahead, [], rfl, h.extend_nil.symm ▸ ho⟩
  | tail _ hstep ih =>
    obtain ⟨done, rest, more, rfl, hu⟩ := ih
    obtain ⟨done', rest', more', rfl, hv⟩ := hu.readStep hkeys hstring hstep
    rw [History.extend_extend, ← List.map_append] at hv
    exact ⟨done ++ done', rest', more ++ more', (List.append_assoc ..).symm, hv⟩

/-- **One operation of the program**: the commands that it carries out are the next ones, and it
writes what it writes. -/
theorem op {op : Op} (hkeys : (es.map Entry.key).Nodup) (hstring : ∀ e ∈ es, e.type ≠ .string)
    (ho : Obeys es w₀ h ahead later w) (hlocal : op.Local) (hrun : op.run w = some v) :
    ∃ effects rest more, ahead = effects.filterMap Effect.command? ++ rest ∧
      effects.filterMap Effect.assign? = op.assigned ∧
      Obeys es w₀ (h.extend effects more) rest later v := by
  rcases ho.sound.op_cases hlocal.1 hrun with ⟨_, _, _, rfl, -⟩ | ⟨io, rfl, hsteps⟩ |
    ⟨io, call, rfl, hsize, rfl⟩ | ⟨_, rfl, -⟩ | ⟨ptr, value, rfl, rfl⟩
  · exact hlocal.2.elim
  · obtain ⟨done, rest, more, rfl, hv⟩ := ho.steps hkeys hstring hsteps
    refine ⟨done.map .command, rest, more, ?_, ?_, hv⟩
    · rw [List.filterMap_map]
      exact congrArg (· ++ rest) List.filterMap_some.symm
    · rw [List.filterMap_map]
      exact List.filterMap_eq_nil_iff.mpr fun _ _ => rfl
  · exact ⟨[], ahead, _, rfl, rfl, ho.send hsize⟩
  · exact hlocal.2.elim
  · exact ⟨[.assign ptr value], ahead, [], rfl, rfl, ho.assign ptr value⟩

/-- Nothing is ahead of a firmware that cannot go on, when nothing comes in later. -/
theorem ahead_of_quiet (ho : Obeys es w₀ h ahead [] w) (hquiet : Quiet w) : ahead = [] := by
  have hstuck := (quiet_iff ho.sound).mp hquiet
  cases ahead with
  | nil => rfl
  | cons c rest =>
    have hpending := ho.pending
    rw [List.append_nil, List.flatMap_cons] at hpending
    obtain ⟨-, hsize⟩ := admits_packet c.toPacket (Store.length_toPacket_le c)
      (rest.flatMap fun c => c.toPacket.bytes)
    have hle : announced w.pending ≤ w.pending.length := by
      rw [hpending, hsize, List.length_append]
      exact Nat.le_add_right _ _
    have hsixteen := sixteen_le_announced w.pending
    rcases ho.listening with hstatus | hstatus
    · refine absurd (ReadStep.header hstatus ?_) (hstuck _)
      rw [← pending_of_waiting hstatus]
      omega
    · refine absurd (ReadStep.payload hstatus ?_) (hstuck _)
      have hlength : w.pending.length = 12 + w.incoming.length := by
        rw [pending_of_received hstatus, List.length_append, w.length_take_rxBuffer]
      rw [announced, payloadSize_congr (take_pending hstatus)] at hle
      omega

end Obeys

end Houston
