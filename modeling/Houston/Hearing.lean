import Houston.Sessions
import Houston.Speech

/-!
# What the host takes in

Whatever the producer dispatches, a packet that passes the checks goes into the queue of its
kind, and the other two queues stay as they are.

* `alertEntry`, `liveDataEntry` — what a packet puts into the queues of alerts and live data,
  beside `telemetryEntry`.
* `Host.Serves` — the handlers that `main` registers, and their queues, whatever is in `txData`.
* `Host.Serves.dispatchData` — one packet, and `Host.Serves.produce` — a batch.
* `Host.Serves.hear_all` — a batch of what the firmware says goes through, and nothing is printed.
* `entries_frames` — what it puts into the queues is what the firmware says.
-/

namespace Houston

open Stuffing

/-- The alert of a packet that gets past the checks and is an alert. -/
def alertEntry (packet : List Byte) : Option (List Byte) :=
  match dispatchChecks packet with
  | some (.ok (header, data)) =>
    if header.packetType = PacketID.alert.code then AlertConsumer.decode data else none
  | _ => none

/-- The records of a packet that gets past the checks and is a response. -/
def liveDataEntry (packet : List Byte) : Option (List LiveDataPacket) :=
  match dispatchChecks packet with
  | some (.ok (header, data)) =>
    if header.packetType = PacketID.responseLiveData.code then LiveDataConsumer.decode data
    else none
  | _ => none

/-- The host has the handlers that `main` registers, and these have queues. -/
structure Host.Serves (h : Host) (telemetry : List (List Byte × List Byte))
    (alerts : List (List Byte)) (responses : List (List LiveDataPacket)) : Prop where
  handlerMap : h.dispatcher.handlerMap = Host.main.dispatcher.handlerMap
  alert : h.consumers 0 = .alert alerts
  telemetry : h.consumers 1 = .telemetry telemetry
  liveData : h.consumers 2 = .liveData responses

/-- The handlers that `main` registers. -/
theorem getHandler_main (key : Byte) : Host.main.dispatcher.getHandler key =
    if key = PacketID.responseLiveData.code then some 2
    else if key = PacketID.telemetry.code then some 1
    else if key = PacketID.alert.code then some 0 else none := by
  simp only [Host.main, Dispatcher.registerHandler, Dispatcher.getHandler, Dispatcher.empty,
    Function.update_apply]
  split_ifs <;> rfl

namespace Host.Serves

variable {h h' : Host} {telemetry : List (List Byte × List Byte)} {alerts : List (List Byte)}
  {responses : List (List LiveDataPacket)}

theorem getHandler (hq : h.Serves telemetry alerts responses) (key : Byte) :
    h.dispatcher.getHandler key = Host.main.dispatcher.getHandler key := by
  rw [Dispatcher.getHandler, hq.handlerMap]
  rfl

/-- The rest of the host is no matter. -/
theorem of_same (hq : h.Serves telemetry alerts responses)
    (hmap : h'.dispatcher.handlerMap = h.dispatcher.handlerMap) (hcons : h'.consumers = h.consumers) :
    h'.Serves telemetry alerts responses where
  handlerMap := hmap.trans hq.handlerMap
  alert := (congrFun hcons 0).trans hq.alert
  telemetry := (congrFun hcons 1).trans hq.telemetry
  liveData := (congrFun hcons 2).trans hq.liveData

theorem setAlert (hq : h.Serves telemetry alerts responses) (alerts' : List (List Byte)) :
    (h.setConsumer 0 (.alert alerts')).Serves telemetry alerts' responses where
  handlerMap := hq.handlerMap
  alert := Host.consumers_setConsumer_self ..
  telemetry := (Host.consumers_setConsumer_of_ne (by decide) _ h).trans hq.telemetry
  liveData := (Host.consumers_setConsumer_of_ne (by decide) _ h).trans hq.liveData

theorem setTelemetry (hq : h.Serves telemetry alerts responses)
    (telemetry' : List (List Byte × List Byte)) :
    (h.setConsumer 1 (.telemetry telemetry')).Serves telemetry' alerts responses where
  handlerMap := hq.handlerMap
  alert := (Host.consumers_setConsumer_of_ne (by decide) _ h).trans hq.alert
  telemetry := Host.consumers_setConsumer_self ..
  liveData := (Host.consumers_setConsumer_of_ne (by decide) _ h).trans hq.liveData

theorem setLiveData (hq : h.Serves telemetry alerts responses)
    (responses' : List (List LiveDataPacket)) :
    (h.setConsumer 2 (.liveData responses')).Serves telemetry alerts responses' where
  handlerMap := hq.handlerMap
  alert := (Host.consumers_setConsumer_of_ne (by decide) _ h).trans hq.alert
  telemetry := (Host.consumers_setConsumer_of_ne (by decide) _ h).trans hq.telemetry
  liveData := Host.consumers_setConsumer_self ..

/-! ### The panels -/

/-- The telemetry panel empties its queue. -/
theorem render_telemetry (hq : h.Serves telemetry alerts responses) {input : TelemetryInput}
    {panel panel' : TelemetryPanel} (hrender : panel.render input h = some (panel', h')) :
    h' = h.setConsumer 1 (.telemetry []) := by
  have hhandler : h.dispatcher.getHandler PacketID.telemetry.code = some 1 :=
    (hq.getHandler _).trans rfl
  obtain ⟨⟨panel₁, h₁⟩, htake, hrender⟩ := Option.bind_eq_some_iff.mp hrender
  cases hrender
  simp only [TelemetryPanel.takeIn, hhandler, hq.telemetry] at htake
  cases htake
  rfl

/-- So does the alert panel. -/
theorem render_alert (hq : h.Serves telemetry alerts responses) (clear : Bool) (panel : AlertPanel) :
    panel.render clear h = some (⟨if clear then [] else panel.alerts ++ alerts⟩,
      h.setConsumer 0 (.alert [])) :=
  AlertPanel.render_eq ((hq.getHandler _).trans rfl) hq.alert clear

/-- And the live data panel, which takes in all records. -/
theorem takeIn (hq : h.Serves telemetry alerts responses) (panel : LiveDataPanel) :
    panel.takeIn h = some (responses.flatten.foldl LiveDataPanel.takeRecord panel,
      h.setConsumer 2 (.liveData [])) := by
  have hhandler : h.dispatcher.getHandler PacketID.responseLiveData.code = some 2 :=
    (hq.getHandler _).trans rfl
  simp only [LiveDataPanel.takeIn, hhandler, hq.liveData]

/-! ### The dispatcher -/

/-- **One packet** goes into the queue of its kind. -/
theorem dispatchData (hq : h.Serves telemetry alerts responses) {packet : List Byte}
    (hrun : Houston.dispatchData packet h = some h') :
    h'.Serves (telemetry ++ (telemetryEntry packet).toList)
        (alerts ++ (alertEntry packet).toList) (responses ++ (liveDataEntry packet).toList) ∧
      h'.dispatcher = h.dispatcher := by
  obtain ⟨r, hchecks, hrun⟩ := Option.bind_eq_some_iff.mp hrun
  rw [telemetryEntry, alertEntry, liveDataEntry, hchecks]
  rcases r with message | ⟨header, data⟩
  · cases hrun
    rw [Option.toList_none, Option.toList_none, Option.toList_none, List.append_nil,
      List.append_nil, List.append_nil]
    exact ⟨hq.of_same rfl rfl, rfl⟩
  simp only [hq.getHandler] at hrun
  have hhandler := getHandler_main header.packetType
  by_cases hresponse : header.packetType = PacketID.responseLiveData.code
  · have htelemetry : ¬ PacketID.responseLiveData.code = PacketID.telemetry.code := by decide
    have halert : ¬ PacketID.responseLiveData.code = PacketID.alert.code := by decide
    rw [if_pos hresponse] at hhandler
    rw [hhandler] at hrun
    obtain ⟨consumer, hconsume, hrun⟩ := Option.bind_eq_some_iff.mp hrun
    obtain rfl : h.setConsumer 2 consumer = h' := Option.some.inj hrun
    rw [hq.liveData, DataConsumer.consume] at hconsume
    obtain ⟨records, hdecode, hpush⟩ := Option.bind_eq_some_iff.mp hconsume
    cases hpush
    simp only [hresponse, htelemetry, halert, if_false, if_true, hdecode, Option.toList_none,
      Option.toList_some, List.append_nil]
    exact ⟨hq.setLiveData _, rfl⟩
  by_cases htelemetry : header.packetType = PacketID.telemetry.code
  · have halert : ¬ PacketID.telemetry.code = PacketID.alert.code := by decide
    rw [if_neg hresponse, if_pos htelemetry] at hhandler
    rw [hhandler] at hrun
    obtain ⟨consumer, hconsume, hrun⟩ := Option.bind_eq_some_iff.mp hrun
    obtain rfl : h.setConsumer 1 consumer = h' := Option.some.inj hrun
    rw [hq.telemetry, DataConsumer.consume] at hconsume
    obtain ⟨entry, hdecode, hpush⟩ := Option.bind_eq_some_iff.mp hconsume
    cases hpush
    rw [htelemetry] at hresponse
    simp only [htelemetry, hresponse, halert, if_false, if_true, hdecode, Option.toList_none,
      Option.toList_some, List.append_nil]
    exact ⟨hq.setTelemetry _, rfl⟩
  by_cases halert : header.packetType = PacketID.alert.code
  · rw [if_neg hresponse, if_neg htelemetry, if_pos halert] at hhandler
    rw [hhandler] at hrun
    obtain ⟨consumer, hconsume, hrun⟩ := Option.bind_eq_some_iff.mp hrun
    obtain rfl : h.setConsumer 0 consumer = h' := Option.some.inj hrun
    rw [hq.alert, DataConsumer.consume] at hconsume
    obtain ⟨text, hdecode, hpush⟩ := Option.bind_eq_some_iff.mp hconsume
    cases hpush
    rw [halert] at hresponse htelemetry
    simp only [halert, hresponse, htelemetry, if_false, if_true, hdecode, Option.toList_none,
      Option.toList_some, List.append_nil]
    exact ⟨hq.setAlert _, rfl⟩
  · rw [if_neg hresponse, if_neg htelemetry, if_neg halert] at hhandler
    rw [hhandler] at hrun
    cases hrun

/-- **A batch**, packet by packet. -/
theorem produce : ∀ (batch : List (List Byte)) {h h' : Host}
    {telemetry : List (List Byte × List Byte)} {alerts : List (List Byte)}
    {responses : List (List LiveDataPacket)}, h.Serves telemetry alerts responses →
    Houston.produce batch h = some h' →
      h'.Serves (telemetry ++ batch.filterMap telemetryEntry)
          (alerts ++ batch.filterMap alertEntry) (responses ++ batch.filterMap liveDataEntry) ∧
        h'.dispatcher = h.dispatcher := by
  intro batch
  induction batch with
  | nil =>
    intro h h' telemetry alerts responses hq hrun
    cases hrun
    simpa only [List.filterMap_nil, List.append_nil, and_true] using hq
  | cons packet batch ih =>
    intro h h' telemetry alerts responses hq hrun
    rw [Houston.produce, List.foldlM_cons] at hrun
    obtain ⟨h₁, hfirst, hrest⟩ := Option.bind_eq_some_iff.mp hrun
    obtain ⟨hq₁, hsame₁⟩ := hq.dispatchData hfirst
    obtain ⟨hq', hsame⟩ := ih hq₁ hrest
    refine ⟨?_, hsame.trans hsame₁⟩
    rwa [filterMap_cons_toList, filterMap_cons_toList, filterMap_cons_toList,
      ← List.append_assoc, ← List.append_assoc, ← List.append_assoc]

end Host.Serves

/-! ## The firmware -/

/-- A dispatcher with other packets in `txData`. -/
def Host.setTxData (txData : List (List Byte)) (h : Host) : Host :=
  { h with dispatcher := ⟨h.dispatcher.handlerMap, txData⟩ }

/-- What is in `txData` does not matter for what is dispatched. -/
theorem dispatchData_setTxData (txData : List (List Byte)) (data : List Byte) (h : Host) :
    dispatchData data (h.setTxData txData) = (dispatchData data h).map (Host.setTxData txData) := by
  rw [dispatchData, dispatchData]
  rcases dispatchChecks data with - | message | ⟨header, y⟩
  · rfl
  · rfl
  · have hhandler : (h.setTxData txData).dispatcher.getHandler header.packetType =
        h.dispatcher.getHandler header.packetType := rfl
    simp only [Option.bind_eq_bind, Option.bind_some, hhandler]
    rcases h.dispatcher.getHandler header.packetType with - | c
    · rfl
    · have hconsumers : (h.setTxData txData).consumers c = h.consumers c := rfl
      simp only [hconsumers]
      rcases (h.consumers c).consume y with - | consumer <;> rfl

theorem produce_setTxData (txData : List (List Byte)) : ∀ (batch : List (List Byte)) (h : Host),
    produce batch (h.setTxData txData) = (produce batch h).map (Host.setTxData txData) := by
  intro batch
  induction batch with
  | nil => exact fun _ => rfl
  | cons data batch ih =>
    intro h
    rw [produce, produce, List.foldlM_cons, List.foldlM_cons, dispatchData_setTxData]
    cases dispatchData data h with
    | none => rfl
    | some h₁ => exact ih h₁

/-- **What the firmware says is taken in**, whatever the host is about to send: nothing is
printed. -/
theorem Host.Serves.hear_all {h : Host} {telemetry : List (List Byte × List Byte)}
    {alerts : List (List Byte)} {responses : List (List LiveDataPacket)}
    (hq : h.Serves telemetry alerts responses) (sayings : List Saying) :
    ∃ h', Houston.produce (sayings.map Saying.frame) h = some h' ∧
      h'.Serves (telemetry ++ sayings.filterMap Saying.telemetry)
        (alerts ++ sayings.filterMap Saying.alertText)
        (responses ++ sayings.filterMap Saying.records) ∧ h'.cerr = h.cerr := by
  have hholds : (h.setTxData []).Holds telemetry alerts responses :=
    ⟨by rw [Host.setTxData, hq.handlerMap]; rfl, hq.alert, hq.telemetry, hq.liveData⟩
  obtain ⟨h', hrun, hq', hcerr⟩ := hholds.hear_all sayings
  have hback : (h.setTxData []).setTxData h.dispatcher.txData = h := rfl
  refine ⟨h'.setTxData h.dispatcher.txData, ?_, ?_, hcerr⟩
  · rw [← hback, produce_setTxData, hrun]
    rfl
  · refine ⟨?_, hq'.alert, hq'.telemetry, hq'.liveData⟩
    show h'.dispatcher.handlerMap = _
    rw [hq'.dispatcher]

/-- What a frame of the firmware puts into the queues is what it says. -/
theorem entries_frame (s : Saying) :
    telemetryEntry s.frame = s.telemetry ∧ alertEntry s.frame = s.alertText ∧
      liveDataEntry s.frame = s.records := by
  have hmain : Host.main.Serves [] [] [] := ⟨rfl, rfl, rfl, rfl⟩
  obtain ⟨h', hrun, hheard, -⟩ := Host.holds_main.hear s
  obtain ⟨htaken, -⟩ := hmain.dispatchData hrun
  have htelemetry := htaken.telemetry.symm.trans hheard.telemetry
  have halert := htaken.alert.symm.trans hheard.alert
  have hresponse := htaken.liveData.symm.trans hheard.liveData
  simp only [List.nil_append, DataConsumer.telemetry.injEq, DataConsumer.alert.injEq,
    DataConsumer.liveData.injEq] at htelemetry halert hresponse
  have hinj : ∀ {β : Type} {x y : Option β}, x.toList = y.toList → x = y := by
    intro β x y hsame
    rw [← Option.head?_toList (o := x), hsame, Option.head?_toList]
  exact ⟨hinj htelemetry, hinj halert, hinj hresponse⟩

theorem entries_frames (sayings : List Saying) :
    (sayings.map Saying.frame).filterMap telemetryEntry = sayings.filterMap Saying.telemetry ∧
      (sayings.map Saying.frame).filterMap alertEntry = sayings.filterMap Saying.alertText ∧
      (sayings.map Saying.frame).filterMap liveDataEntry = sayings.filterMap Saying.records := by
  rw [List.filterMap_map, List.filterMap_map, List.filterMap_map]
  exact ⟨List.filterMap_congr fun s _ => (entries_frame s).1,
    List.filterMap_congr fun s _ => (entries_frame s).2.1,
    List.filterMap_congr fun s _ => (entries_frame s).2.2⟩

end Houston
