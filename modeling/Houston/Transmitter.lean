import Houston.Memory
import Houston.Runs

/-!
# Sending on the host: `producer/SerialProducer.h`

A packet passes through four stages on its way out. The dispatcher collects it in
`txData`; `send_data`, on the thread of the user interface, posts a handler with it; the
handler, on the thread of the port, puts it into `tx_queue_`; and `async_write` writes the
front of this queue. The queue being non-empty is all that tells a handler that a write is
going on. None of the stages looks into a packet, so packets are of any type here.

* `Transmitter.step` — what may happen, in any order.
* `transmit_fifo` — the packets are written in their order, one at a time.
* `not_stranded_iff` — a run leaves no packet stranded exactly when no write fails in it.
-/

namespace Houston

open Runs

/-- The transmit side of `SerialProducer`, and the part of `Dispatcher` that it uses. -/
structure Transmitter (α : Type) where
  /-- `Dispatcher::txData` -/
  txData : List α
  /-- how many of them a call of `send_data` that is under way has posted -/
  sending : Option ℕ
  /-- the handlers that were posted and did not run, by the packets they hold -/
  posted : List α
  /-- `tx_queue_` -/
  txQueue : List α
  /-- the calls of `async_write` that are outstanding, by the packets they write -/
  writes : List α
  /-- what was written -/
  port : List α

namespace Transmitter

variable {α : Type}

/-- A producer after its `start`, and the packets that the dispatcher holds then. -/
def start (txData : List α) : Transmitter α where
  txData := txData
  sending := none
  posted := []
  txQueue := []
  writes := []
  port := []

/-- `Dispatcher::sendData` -/
def sendData (data : α) (s : Transmitter α) : Transmitter α := { s with txData := s.txData ++ [data] }

/-- `SerialProducer::start_write`; there is no front of an empty queue. -/
def startWrite (s : Transmitter α) : Option (Transmitter α) := do
  let front ← s.txQueue.head?
  some { s with writes := s.writes ++ [front] }

/-- The handler that `SerialProducer::send_data` posts. -/
def handle (data : α) (s : Transmitter α) : Option (Transmitter α) :=
  let writeInProgress := !s.txQueue.isEmpty
  let s := { s with txQueue := s.txQueue ++ [data] }
  if !writeInProgress then s.startWrite else some s

/-- The handler of `async_write` when there was no error. -/
def written (s : Transmitter α) : Option (Transmitter α) :=
  match s.txQueue with
  | [] => none
  | _ :: rest =>
    let s := { s with txQueue := rest }
    if !s.txQueue.isEmpty then s.startWrite else some s

/-- What may happen: on the thread of the user interface a call of `sendData` and the
parts of a call of `send_data`; on the thread of the port the next posted handler, and the
end of an outstanding write. -/
inductive Step (α : Type) where
  | sendData (data : α)
  | begin
  | post
  | clear
  | handle
  | complete (k : ℕ) (error : Bool)

/-- Let it happen. -/
def step : Step α → Transmitter α → Option (Transmitter α)
  | .sendData data, s => if s.sending = none then some (s.sendData data) else none
  | .begin, s => if s.sending = none then some { s with sending := some 0 } else none
  | .post, s => do
    let i ← s.sending
    let data ← s.txData[i]?
    some { s with sending := some (i + 1), posted := s.posted ++ [data] }
  | .clear, s => do
    let i ← s.sending
    if i < s.txData.length then none else some { s with txData := [], sending := none }
  | .handle, s =>
    match s.posted with
    | [] => none
    | data :: rest => handle data { s with posted := rest }
  | .complete k error, s => do
    let data ← s.writes[k]?
    let s := { s with writes := s.writes.eraseIdx k }
    if error then some s else written { s with port := s.port ++ [data] }

/-- The packets of `txData` that were not posted. -/
def unposted (s : Transmitter α) : List α := s.txData.drop (s.sending.getD 0)

/-- All packets, from the port back to the dispatcher. -/
def content (s : Transmitter α) : List α := s.port ++ (s.txQueue ++ (s.posted ++ s.unposted))

/-- The packets given to `sendData` in a step. -/
def Step.given : Step α → List α
  | .sendData data => [data]
  | _ => []

variable {s t : Transmitter α} {e : Step α} {old : List α} {es : List (Step α)}

/-! ## One write at a time -/

/-- The front of the queue is being written, if there is one. -/
def Busy (s : Transmitter α) : Prop := s.writes = s.txQueue.head?.toList

/-- Nothing is being written, although there is something to write. -/
def Stranded (s : Transmitter α) : Prop := s.writes = [] ∧ s.txQueue ≠ []

theorem busy_start (old : List α) : (start old).Busy := rfl

/-- A handler that finds the queue empty starts a write, any other one relies on the write
that is going on. -/
theorem handle_eq (data : α) (s : Transmitter α) :
    s.handle data = some (if s.txQueue = []
      then { s with txQueue := [data], writes := s.writes ++ [data] }
      else { s with txQueue := s.txQueue ++ [data] }) := by
  rw [handle]
  cases hqueue : s.txQueue with
  | nil => rfl
  | cons front rest => rfl

/-- After a write, the next one is started. -/
theorem written_eq {front : α} {rest : List α} (hqueue : s.txQueue = front :: rest) :
    s.written = some { s with txQueue := rest, writes := s.writes ++ rest.head?.toList } := by
  rw [written, hqueue]
  cases rest with
  | nil => rw [List.head?_nil, Option.toList_none, List.append_nil]; rfl
  | cons next rest => rfl

/-- What is written is the front of the queue, and it is all that is being written. -/
theorem Busy.of_getElem? (h : s.Busy) {k : ℕ} {data : α} (hk : s.writes[k]? = some data) :
    k = 0 ∧ s.writes = [data] ∧ ∃ rest, s.txQueue = data :: rest := by
  rw [h] at hk ⊢
  cases hqueue : s.txQueue with
  | nil =>
    rw [hqueue] at hk
    cases hk
  | cons front rest =>
    rw [hqueue] at hk
    cases k with
    | zero => cases hk; exact ⟨rfl, rfl, rest, rfl⟩
    | succ k => cases hk

/-- **What a step can do.** On the thread of the user interface packets move towards the
posted handlers; on the thread of the port a handler runs, or a write ends. -/
theorem step_cases (hstep : step e s = some t) :
    ((∀ k error, e ≠ .complete k error) ∧ t.port = s.port ∧ t.txQueue = s.txQueue ∧
        t.writes = s.writes ∧ t.posted ++ t.unposted = s.posted ++ (s.unposted ++ e.given)) ∨
      (∃ data rest, e = .handle ∧ s.posted = data :: rest ∧
        handle data { s with posted := rest } = some t) ∨
      ∃ k data, s.writes[k]? = some data ∧
        (e = .complete k true ∧ t = { s with writes := s.writes.eraseIdx k } ∨
          e = .complete k false ∧ written { s with
            writes := s.writes.eraseIdx k, port := s.port ++ [data] } = some t) := by
  cases e with
  | sendData data =>
    rw [step] at hstep
    split_ifs at hstep with hidle
    cases hstep
    refine Or.inl ⟨fun _ _ => nofun, rfl, rfl, rfl, ?_⟩
    simp [unposted, sendData, hidle, Step.given]
  | begin =>
    rw [step] at hstep
    split_ifs at hstep with hidle
    cases hstep
    refine Or.inl ⟨fun _ _ => nofun, rfl, rfl, rfl, ?_⟩
    simp [unposted, hidle, Step.given]
  | post =>
    obtain ⟨i, hi, hstep⟩ := Option.bind_eq_some_iff.mp hstep
    obtain ⟨data, hdata, hstep⟩ := Option.bind_eq_some_iff.mp hstep
    cases hstep
    obtain ⟨hlt, rfl⟩ := List.getElem?_eq_some_iff.mp hdata
    refine Or.inl ⟨fun _ _ => nofun, rfl, rfl, rfl, ?_⟩
    have hrest : s.unposted = s.txData[i] :: s.txData.drop (i + 1) := by
      rw [unposted, hi, Option.getD_some, List.drop_eq_getElem_cons hlt]
    show (s.posted ++ [s.txData[i]]) ++ s.txData.drop (i + 1) = s.posted ++ (s.unposted ++ [])
    rw [hrest, List.append_nil, List.append_assoc, List.singleton_append]
  | clear =>
    obtain ⟨i, hi, hstep⟩ := Option.bind_eq_some_iff.mp hstep
    split_ifs at hstep with hlt
    cases hstep
    refine Or.inl ⟨fun _ _ => nofun, rfl, rfl, rfl, ?_⟩
    simp [unposted, hi, Step.given, List.drop_eq_nil_of_le (Nat.le_of_not_lt hlt)]
  | handle =>
    rw [step] at hstep
    cases hposted : s.posted with
    | nil =>
      rw [hposted] at hstep
      cases hstep
    | cons data rest =>
      rw [hposted] at hstep
      exact Or.inr (Or.inl ⟨data, rest, rfl, rfl, hstep⟩)
  | complete k error =>
    obtain ⟨data, hdata, hstep⟩ := Option.bind_eq_some_iff.mp hstep
    refine Or.inr (Or.inr ⟨k, data, hdata, ?_⟩)
    cases error with
    | true => exact Or.inl ⟨rfl, (Option.some.inj hstep).symm⟩
    | false => exact Or.inr ⟨rfl, hstep⟩

/-- Packets that only move towards the posted handlers stay in order. -/
theorem content_eq (hport : t.port = s.port) (hqueue : t.txQueue = s.txQueue)
    (hposted : t.posted ++ t.unposted = s.posted ++ (s.unposted ++ e.given)) :
    t.content = s.content ++ e.given := by
  rw [content, content, hport, hqueue, hposted]
  simp only [List.append_assoc]

/-- A handler takes its packet from the posted ones to the end of the queue. -/
theorem content_handle {data : α} {rest : List α} (hposted : s.posted = data :: rest)
    (hhandle : handle data { s with posted := rest } = some t) : t.content = s.content := by
  have hmoved : (s.txQueue ++ [data]) ++ (rest ++ s.unposted) =
      s.txQueue ++ (s.posted ++ s.unposted) := by
    rw [hposted, List.append_assoc, List.singleton_append, List.cons_append]
  rw [handle_eq] at hhandle
  cases hhandle
  rw [content, content, ← hmoved]
  split_ifs with hempty
  · rw [show s.txQueue = [] from hempty, List.nil_append]
    rfl
  · rfl

/-- **One step of a transmitter that is busy**: a write that fails leaves it stranded, any
other step leaves it busy, and no packet gets lost or out of order. -/
theorem Busy.step (h : s.Busy) (hstep : step e s = some t) :
    t.content = s.content ++ e.given ∧
      (t.Busy ∧ (∀ k, e ≠ .complete k true) ∨ t.Stranded ∧ ∃ k, e = .complete k true) := by
  rcases step_cases hstep with ⟨hother, hport, hqueue, hwrites, hposted⟩ |
    ⟨data, rest, rfl, hposted, hhandle⟩ | ⟨k, data, hdata, hend⟩
  · refine ⟨content_eq hport hqueue hposted, Or.inl ⟨?_, fun k => hother k true⟩⟩
    rw [Busy, hwrites, hqueue, h]
  · refine ⟨(content_handle hposted hhandle).trans (List.append_nil _).symm,
      Or.inl ⟨?_, fun k => nofun⟩⟩
    rw [handle_eq] at hhandle
    cases hhandle
    split_ifs with hempty
    · show s.writes ++ [data] = [data]
      rw [h, show s.txQueue = [] from hempty]
      rfl
    · obtain ⟨front, rest', hfront⟩ :=
        List.exists_cons_of_ne_nil (show s.txQueue ≠ [] from hempty)
      show s.writes = (s.txQueue ++ [data]).head?.toList
      rw [h, hfront]
      rfl
  · obtain ⟨rfl, hwrites, rest, hqueue⟩ := h.of_getElem? hdata
    rcases hend with ⟨rfl, rfl⟩ | ⟨rfl, hwritten⟩
    · refine ⟨(List.append_nil _).symm, Or.inr ⟨⟨?_, ?_⟩, 0, rfl⟩⟩
      · show s.writes.eraseIdx 0 = []
        rw [hwrites]
        rfl
      · show s.txQueue ≠ []
        rw [hqueue]
        exact List.cons_ne_nil _ _
    · rw [written_eq (show Transmitter.txQueue { s with
        writes := s.writes.eraseIdx 0, port := s.port ++ [data] } = data :: rest from hqueue)]
        at hwritten
      cases hwritten
      refine ⟨?_, Or.inl ⟨?_, fun k hk => by cases hk⟩⟩
      · simp [content, unposted, hqueue, Step.given]
      · show s.writes.eraseIdx 0 ++ rest.head?.toList = rest.head?.toList
        rw [hwrites]
        rfl

/-- **One step of a transmitter that is stranded**: it stays so, and nothing is written. -/
theorem Stranded.step (h : s.Stranded) (hstep : step e s = some t) :
    t.content = s.content ++ e.given ∧ t.Stranded ∧ ∀ k error, e ≠ .complete k error := by
  obtain ⟨hnone, hsome⟩ := h
  rcases step_cases hstep with ⟨hother, hport, hqueue, hwrites, hposted⟩ |
    ⟨data, rest, rfl, hposted, hhandle⟩ | ⟨k, data, hdata, -⟩
  · refine ⟨content_eq hport hqueue hposted, ⟨?_, ?_⟩, hother⟩
    · rw [hwrites, hnone]
    · rwa [hqueue]
  · refine ⟨(content_handle hposted hhandle).trans (List.append_nil _).symm, ?_,
      fun k error => nofun⟩
    rw [handle_eq, if_neg (show Transmitter.txQueue { s with posted := rest } ≠ [] from hsome)]
      at hhandle
    cases hhandle
    exact ⟨hnone, List.append_ne_nil_of_right_ne_nil _ (List.cons_ne_nil _ _)⟩
  · rw [hnone] at hdata
    cases hdata

/-! ## Runs -/

/-- A transmitter is busy or stranded, whatever happens. -/
theorem step_inv (h : s.Busy ∨ s.Stranded) (hstep : step e s = some t) :
    (t.Busy ∨ t.Stranded) ∧ t.content = s.content ++ e.given := by
  rcases h with h | h
  · obtain ⟨hcontent, ⟨hbusy, -⟩ | ⟨hstranded, -⟩⟩ := h.step hstep
    · exact ⟨Or.inl hbusy, hcontent⟩
    · exact ⟨Or.inr hstranded, hcontent⟩
  · obtain ⟨hcontent, hstranded, -⟩ := h.step hstep
    exact ⟨Or.inr hstranded, hcontent⟩

/-- **The handlers never fail**: there is a front of `tx_queue_` whenever one of them takes
it. -/
theorem exists_step (h : s.Busy ∨ s.Stranded) :
    (∀ data rest, s.posted = data :: rest → ∃ t, step .handle s = some t) ∧
      ∀ k data error, s.writes[k]? = some data → ∃ t, step (.complete k error) s = some t := by
  constructor
  · intro data rest hposted
    rw [step, hposted]
    exact ⟨_, handle_eq data _⟩
  · intro k data error hdata
    rcases h with hbusy | ⟨hnone, -⟩
    · obtain ⟨rfl, -, rest, hqueue⟩ := hbusy.of_getElem? hdata
      rw [step, hdata, Option.bind_eq_bind, Option.bind_some]
      cases error with
      | true => exact ⟨_, rfl⟩
      | false => exact ⟨_, written_eq hqueue⟩
    · rw [hnone] at hdata
      cases hdata

/-- **Transmission is first in, first out.** Whatever happens in a session, at most one
write is outstanding, and it is for the front of `tx_queue_`; and what was written,
followed by `tx_queue_`, the posted packets, and those of `txData` that are not posted yet,
is the sequence of the packets given to `sendData`, behind those the session began with. -/
theorem transmit_fifo (hrun : run step es (start old) = some s) :
    s.writes.length ≤ 1 ∧ (∀ data ∈ s.writes, s.txQueue.head? = some data) ∧
      s.port ++ s.txQueue ++ s.posted ++ s.unposted = old ++ es.flatMap Step.given := by
  have hinv : s.Busy ∨ s.Stranded :=
    run_invariant (I := fun s => s.Busy ∨ s.Stranded) (fun h hstep => (step_inv h hstep).1)
      (Or.inl (busy_start old)) hrun
  have hcontent : s.content = (start old).content ++ es.flatMap Step.given :=
    run_conserved (fun h hstep => (step_inv h hstep).1) (fun h hstep => (step_inv h hstep).2)
      (Or.inl (busy_start old)) hrun
  have hstart : (start old).content = old := rfl
  rw [hstart, content, ← List.append_assoc, ← List.append_assoc] at hcontent
  refine ⟨?_, ?_, hcontent⟩
  · rcases hinv with hbusy | ⟨hnone, -⟩
    · rw [hbusy]
      cases s.txQueue.head? with
      | none => exact Nat.zero_le 1
      | some front => exact Nat.le_refl 1
    · rw [hnone]
      exact Nat.zero_le 1
  · intro data hdata
    rcases hinv with hbusy | ⟨hnone, -⟩
    · rw [hbusy] at hdata
      exact Option.mem_toList.mp hdata
    · rw [hnone] at hdata
      cases hdata

/-- A packet is given to `sendData`, posted, and put into `tx_queue_`. -/
def sendOne (data : List Byte) : List (Step (List Byte)) :=
  [.sendData data, .begin, .post, .clear, .handle]

/-- Two packets on their way out: the first is written, and the second is being written. -/
theorem transmit_fifo_two :
    ∃ s : Transmitter (List Byte),
      run step (sendOne [0x33] ++ sendOne [0x32] ++ [Step.complete 0 false]) (start []) = some s ∧
      s.port = [[0x33]] ∧ s.txQueue = [[0x32]] ∧
      s.writes.length ≤ 1 ∧ (∀ data ∈ s.writes, s.txQueue.head? = some data) ∧
      s.port ++ s.txQueue ++ s.posted ++ s.unposted =
        [] ++ (sendOne [0x33] ++ sendOne [0x32] ++ [Step.complete 0 false]).flatMap Step.given :=
  ⟨_, rfl, rfl, rfl, transmit_fifo rfl⟩

/-! ## Where packets come from -/

/-- All packets that are anywhere have a property. -/
structure All (P : α → Prop) (s : Transmitter α) : Prop where
  txData : ∀ data ∈ s.txData, P data
  posted : ∀ data ∈ s.posted, P data
  txQueue : ∀ data ∈ s.txQueue, P data
  writes : ∀ data ∈ s.writes, P data
  port : ∀ data ∈ s.port, P data

variable {P : α → Prop}

theorem forall_mem_concat {l : List α} {data : α} (hall : ∀ other ∈ l, P other) (hdata : P data) :
    ∀ other ∈ l ++ [data], P other :=
  List.forall_mem_append.mpr ⟨hall, List.forall_mem_singleton.mpr hdata⟩

theorem all_start (h : ∀ data ∈ old, P data) : (start old).All P where
  txData := h
  posted _ hdata := absurd hdata List.not_mem_nil
  txQueue _ hdata := absurd hdata List.not_mem_nil
  writes _ hdata := absurd hdata List.not_mem_nil
  port _ hdata := absurd hdata List.not_mem_nil

theorem All.startWrite (h : s.All P) (hstart : s.startWrite = some t) : t.All P := by
  obtain ⟨front, hfront, hstart⟩ := Option.bind_eq_some_iff.mp hstart
  cases hstart
  have hall := h.txQueue front (List.mem_of_head? hfront)
  exact { h with writes := forall_mem_concat h.writes hall }

theorem All.handle (h : s.All P) {data : α} (hdata : P data) (hhandle : handle data s = some t) :
    t.All P := by
  have hqueue : All P { s with txQueue := s.txQueue ++ [data] } :=
    { h with txQueue := forall_mem_concat h.txQueue hdata }
  rw [Transmitter.handle] at hhandle
  split_ifs at hhandle
  · exact hqueue.startWrite hhandle
  · cases hhandle
    exact hqueue

theorem All.written (h : s.All P) (hwritten : s.written = some t) : t.All P := by
  rw [Transmitter.written] at hwritten
  split at hwritten
  · cases hwritten
  · next front rest hcons =>
    have hrest : All P { s with txQueue := rest } := by
      refine { h with txQueue := fun data hdata => h.txQueue data ?_ }
      rw [hcons]
      exact List.mem_cons_of_mem front hdata
    dsimp only at hwritten
    split_ifs at hwritten
    · exact hrest.startWrite hwritten
    · cases hwritten
      exact hrest

/-- **No packet comes from nowhere**: what is anywhere after a step was somewhere before, or
is given to `sendData`. -/
theorem All.step (h : s.All P) (hgiven : ∀ data ∈ e.given, P data) (hstep : step e s = some t) :
    t.All P := by
  cases e with
  | sendData data =>
    rw [Transmitter.step] at hstep
    split_ifs at hstep with hidle
    cases hstep
    exact { h with txData := forall_mem_concat h.txData (hgiven data List.mem_cons_self) }
  | begin =>
    rw [Transmitter.step] at hstep
    split_ifs at hstep with hidle
    cases hstep
    exact { h with }
  | post =>
    obtain ⟨i, hi, hstep⟩ := Option.bind_eq_some_iff.mp hstep
    obtain ⟨data, hdata, hstep⟩ := Option.bind_eq_some_iff.mp hstep
    cases hstep
    have hall := h.txData data (List.mem_of_getElem? hdata)
    exact { h with posted := forall_mem_concat h.posted hall }
  | clear =>
    obtain ⟨i, hi, hstep⟩ := Option.bind_eq_some_iff.mp hstep
    split_ifs at hstep with hlt
    cases hstep
    exact { h with txData := fun other hother => absurd hother List.not_mem_nil }
  | handle =>
    rw [Transmitter.step] at hstep
    split at hstep
    · cases hstep
    · next data rest hcons =>
      have hposted : ∀ other ∈ data :: rest, P other := by
        rw [← hcons]
        exact h.posted
      have hrest : All P { s with posted := rest } :=
        { h with posted := fun other hother => hposted other (List.mem_cons_of_mem data hother) }
      exact hrest.handle (hposted data List.mem_cons_self) hstep
  | complete k error =>
    obtain ⟨data, hdata, hstep⟩ := Option.bind_eq_some_iff.mp hstep
    have hwrites : All P { s with writes := s.writes.eraseIdx k } :=
      { h with writes := fun other hother => h.writes other (List.mem_of_mem_eraseIdx hother) }
    have hall := h.writes data (List.mem_of_getElem? hdata)
    have hport : All P { s with writes := s.writes.eraseIdx k, port := s.port ++ [data] } :=
      { hwrites with port := forall_mem_concat h.port hall }
    dsimp only at hstep
    split_ifs at hstep
    · cases hstep
      exact hwrites
    · exact hport.written hstep

/-! ## Stranded packets -/

/-- A run leaves the transmitter stranded if a write fails in it, and busy otherwise. -/
theorem busy_or_stranded (h : s.Busy) (hrun : run step es s = some t) :
    t.Busy ∧ (∀ k, Step.complete k true ∉ es) ∨ t.Stranded ∧ ∃ k, Step.complete k true ∈ es := by
  induction es generalizing s with
  | nil =>
    rw [← run_nil.mp hrun]
    exact Or.inl ⟨h, fun k => List.not_mem_nil⟩
  | cons e es ih =>
    obtain ⟨r, hfirst, hrest⟩ := run_cons.mp hrun
    obtain ⟨-, ⟨hbusy, hok⟩ | ⟨hstranded, k, rfl⟩⟩ := h.step hfirst
    · rcases ih hbusy hrest with ⟨hend, hnone⟩ | ⟨hend, k, hk⟩
      · refine Or.inl ⟨hend, fun k hk => ?_⟩
        rcases List.mem_cons.mp hk with heq | hk
        · exact hok k heq.symm
        · exact hnone k hk
      · exact Or.inr ⟨hend, k, List.mem_cons_of_mem e hk⟩
    · -- nothing starts a write again
      have hend : t.Stranded :=
        run_invariant (fun hstuck hstep => (Stranded.step hstuck hstep).2.1) hstranded hrest
      exact Or.inr ⟨hend, k, List.mem_cons_self⟩

/-- **When no packet is stranded**: in the state after a run that begins with the start of
the producer, a write is outstanding whenever `tx_queue_` is not empty, if and only if no
write has ended with an error in the run. -/
theorem not_stranded_iff (hrun : run step es (start old) = some s) :
    (s.txQueue ≠ [] → s.writes ≠ []) ↔ ∀ k, Step.complete k true ∉ es := by
  rcases busy_or_stranded (busy_start old) hrun with ⟨hbusy, hnone⟩ | ⟨⟨hwrites, hqueue⟩, k, hk⟩
  · refine iff_of_true (fun hqueue => ?_) hnone
    obtain ⟨front, rest, hfront⟩ := List.exists_cons_of_ne_nil hqueue
    rw [hbusy, hfront]
    exact List.cons_ne_nil _ _
  · exact iff_of_false (fun h => h hqueue hwrites) fun hnone => hnone k hk

/-- One packet on its way out, and no error. -/
theorem not_stranded_iff_one :
    ∃ s : Transmitter (List Byte), run step (sendOne [0x33]) (start []) = some s ∧
      ((s.txQueue ≠ [] → s.writes ≠ []) ↔ ∀ k, Step.complete k true ∉ sendOne [0x33]) := by
  have hrun : run step (sendOne [0x33]) (start []) = some _ := rfl
  exact ⟨_, hrun, not_stranded_iff hrun⟩

/-- **Two packets are stranded**: the write of the first one fails, and the second one,
posted afterwards, is put into the queue behind it without a write being started. -/
theorem stranded_after_error :
    ∃ s : Transmitter (List Byte),
      run step (sendOne [0x33] ++ .complete 0 true :: sendOne [0x32]) (start []) = some s ∧
      s.txQueue = [[0x33], [0x32]] ∧ s.writes = [] ∧ s.posted = [] ∧ s.port = [] ∧
      ¬ (s.txQueue ≠ [] → s.writes ≠ []) :=
  ⟨_, rfl, rfl, rfl, rfl, rfl, fun h => h (List.cons_ne_nil _ _) rfl⟩

end Transmitter

end Houston
