import Houston.Consumers
import Houston.Dispatcher

/-!
# The telemetry and the alert panel: `components/TelemetryPanel.cpp`, `AlertPanel.cpp`

Both panels empty the queue of their consumer in every frame. The telemetry panel keeps
the last value of every key, and, while the user saves, writes a row of them to a file.

* `TelemetryPanel.render_eq` — a frame empties the queue, and shows the last value of every
  key.
* `TelemetryPanel.written_saveRow` — a row goes to the file that is open, and to no other.
* `AlertPanel.render_eq` — a frame empties the queue into the list of alerts.
-/

namespace Houston

/-! ## The telemetry panel -/

/-- `TelemetryPanel`, and the files that it writes. -/
structure TelemetryPanel where
  telemetryMap : List Byte → Option (List Byte)
  /-- the keys of `dataMap`, in their order -/
  dataMap : List (List Byte)
  savingFile : Bool
  csvHeaders : List (List Byte)
  /-- `file`: the name of the file that it is open on -/
  file : Option (List Byte)
  /-- what was written to the files, by their names -/
  written : List Byte → List Byte

/-- What happens to the telemetry panel in a frame, but for the queue. -/
structure TelemetryInput where
  /-- `system_clock::now`, in milliseconds -/
  now : ℤ
  /-- `csvFileBuffer`, as the user has edited it -/
  csvFileBuffer : List Byte
  /-- the user clicks the button, which says "Save File" or "Stop Saving File" -/
  click : Bool
  /-- the file can be opened -/
  opens : Bool

namespace TelemetryPanel

/-- A panel that was constructed. -/
def init : TelemetryPanel where
  telemetryMap _ := none
  dataMap := []
  savingFile := false
  csvHeaders := []
  file := none
  written _ := []

/-- `TelemetryPanel::start` -/
def start (panel : TelemetryPanel) : TelemetryPanel := { panel with telemetryMap := fun _ => none }

/-- `TelemetryPanel::stop` -/
def stop (panel : TelemetryPanel) : TelemetryPanel :=
  { panel with
    dataMap := []
    savingFile := false
    csvHeaders := []
    telemetryMap := fun _ => none
    file := none }

/-- `file << text`; nothing is written when no file is open. -/
def put (text : List Byte) (panel : TelemetryPanel) : TelemetryPanel :=
  match panel.file with
  | none => panel
  | some name => { panel with
      written := Function.update panel.written name (panel.written name ++ text) }

/-- `telemetryMap[std::move(key)] = std::move(val)` -/
def record (panel : TelemetryPanel) (entry : List Byte × List Byte) : TelemetryPanel :=
  { panel with telemetryMap := Function.update panel.telemetryMap entry.1 (some entry.2) }

/-- `TelemetryPanel::render`, the loop over the queue. The consumer behind the handler is
cast to one of telemetry. -/
def takeIn (h : Host) (panel : TelemetryPanel) : Option (TelemetryPanel × Host) :=
  match h.dispatcher.getHandler PacketID.telemetry.code with
  | none => some (panel, h)
  | some c =>
    match h.consumers c with
    | .telemetry queue => some (queue.foldl record panel, h.setConsumer c (.telemetry []))
    | _ => none

/-- `TelemetryPanel::render`, a row of the file. -/
def saveRow (now : ℤ) (panel : TelemetryPanel) : TelemetryPanel :=
  if panel.savingFile then
    panel.put (ascii (toString now) ++ ascii "," ++
      (panel.csvHeaders.drop 1).flatMap (fun header =>
        match panel.telemetryMap header with
        | some value => value ++ ascii ","
        | none => ascii "-1,") ++ ascii "\n")
  else panel

/-- `TelemetryPanel::render`, the button "Stop Saving File". -/
def stopSaving (panel : TelemetryPanel) : TelemetryPanel :=
  { panel with savingFile := false, file := none }

/-- `file.open(csvFileBuffer, std::ios_base::app)` -/
def openFile (input : TelemetryInput) (panel : TelemetryPanel) : TelemetryPanel :=
  { panel with
    file := match panel.file with
      | none => if input.opens then some input.csvFileBuffer else none
      | some name => some name }

/-- The header of the file. -/
def putHeader (panel : TelemetryPanel) : TelemetryPanel :=
  let panel := { panel with csvHeaders := ascii "Time" :: panel.dataMap }
  panel.put (ascii "Time," ++ panel.dataMap.flatMap (fun header => header ++ ascii ",") ++
    ascii "\n")

/-- `TelemetryPanel::render`, the button "Save File". -/
def startSaving (input : TelemetryInput) (panel : TelemetryPanel) : TelemetryPanel :=
  let panel := { panel with csvHeaders := [] }
  let panel := panel.openFile input
  if panel.file.isNone then panel else { panel.putHeader with savingFile := true }

/-- `TelemetryPanel::render`, the button. -/
def press (input : TelemetryInput) (panel : TelemetryPanel) : TelemetryPanel :=
  if input.click then if panel.savingFile then panel.stopSaving else panel.startSaving input
  else panel

/-- `TelemetryPanel::render` -/
def render (input : TelemetryInput) (h : Host) (panel : TelemetryPanel) :
    Option (TelemetryPanel × Host) := do
  let (panel, h) ← panel.takeIn h
  some ((panel.saveRow input.now).press input, h)

/-- The last value of a key in a sequence of entries. -/
def latest (entries : List (List Byte × List Byte)) (key : List Byte) : Option (List Byte) :=
  (entries.reverse.find? fun entry => entry.1 = key).map Prod.snd

variable {panel panel' : TelemetryPanel} {h h' : Host} {input : TelemetryInput}

theorem latest_concat (entries : List (List Byte × List Byte)) (entry : List Byte × List Byte) :
    latest (entries ++ [entry]) = Function.update (latest entries) entry.1 (some entry.2) := by
  funext key
  rw [latest, List.reverse_append, List.reverse_singleton, List.singleton_append, List.find?_cons]
  by_cases hkey : entry.1 = key
  · rw [decide_eq_true hkey, ← hkey, Function.update_self]
    rfl
  · rw [decide_eq_false hkey, Function.update_of_ne (Ne.symm hkey)]
    rfl

/-- The map shows the entries of a sequence, and nothing else. -/
theorem foldl_record {entries : List (List Byte × List Byte)}
    (hmap : panel.telemetryMap = latest entries) (queue : List (List Byte × List Byte)) :
    queue.foldl record panel = { panel with telemetryMap := latest (entries ++ queue) } := by
  induction queue generalizing panel entries with
  | nil =>
    rw [List.append_nil, ← hmap]
    rfl
  | cons entry queue ih =>
    have hnext : (panel.record entry).telemetryMap = latest (entries ++ [entry]) := by
      rw [record, hmap, latest_concat]
    rw [List.foldl_cons, ih hnext, List.append_assoc, List.singleton_append]
    rfl

/-- **The queue is emptied, and every key shows its last value.** -/
theorem takeIn_eq {c : ConsumerPtr} {queue entries : List (List Byte × List Byte)}
    (hhandler : h.dispatcher.getHandler PacketID.telemetry.code = some c)
    (hqueue : h.consumers c = .telemetry queue) (hmap : panel.telemetryMap = latest entries) :
    panel.takeIn h = some ({ panel with telemetryMap := latest (entries ++ queue) },
      h.setConsumer c (.telemetry [])) := by
  rw [takeIn, hhandler]
  simp only [hqueue, foldl_record hmap]

@[simp] theorem telemetryMap_put (text : List Byte) (panel : TelemetryPanel) :
    (panel.put text).telemetryMap = panel.telemetryMap := by
  rw [put]
  split <;> rfl

@[simp] theorem telemetryMap_saveRow (now : ℤ) (panel : TelemetryPanel) :
    (panel.saveRow now).telemetryMap = panel.telemetryMap := by
  rw [saveRow]
  split_ifs
  · rw [telemetryMap_put]
  · rfl

@[simp] theorem telemetryMap_press (input : TelemetryInput) (panel : TelemetryPanel) :
    (panel.press input).telemetryMap = panel.telemetryMap := by
  rw [press]
  split_ifs
  · rfl
  · rw [startSaving]
    split_ifs
    · rfl
    · exact telemetryMap_put ..
  · rfl

/-- **A frame empties the queue, and shows the last value of every key.** -/
theorem render_eq {c : ConsumerPtr} {queue entries : List (List Byte × List Byte)}
    (hhandler : h.dispatcher.getHandler PacketID.telemetry.code = some c)
    (hqueue : h.consumers c = .telemetry queue) (hmap : panel.telemetryMap = latest entries)
    (input : TelemetryInput) :
    ∃ panel', panel.render input h = some (panel', h.setConsumer c (.telemetry [])) ∧
      panel'.telemetryMap = latest (entries ++ queue) := by
  refine ⟨(({ panel with telemetryMap := latest (entries ++ queue) } : TelemetryPanel).saveRow
    input.now).press input, ?_, ?_⟩
  · rw [render, takeIn_eq hhandler hqueue hmap]
    rfl
  · rw [telemetryMap_press, telemetryMap_saveRow]

theorem written_put {text : List Byte} (name : List Byte) :
    (panel.put text).written name =
      if panel.file = some name then panel.written name ++ text else panel.written name := by
  rw [put]
  split
  · next hfile => rw [if_neg (by rw [hfile]; nofun)]
  · next name' hfile =>
    by_cases hname : name' = name
    · rw [if_pos (hfile.trans (congrArg some hname)), hname]
      exact Function.update_self ..
    · rw [if_neg (by rw [hfile, Option.some.injEq]; exact hname)]
      exact Function.update_of_ne (Ne.symm hname) ..

/-- **A row goes to the file that is open, and to no other.** -/
theorem written_saveRow (hsaving : panel.savingFile = true) (now : ℤ) :
    ∃ row, ∀ name, (panel.saveRow now).written name =
      if panel.file = some name then panel.written name ++ row else panel.written name := by
  rw [saveRow, if_pos hsaving]
  exact ⟨_, written_put⟩

end TelemetryPanel

/-! ## The alert panel -/

/-- `AlertPanel` -/
structure AlertPanel where
  alerts : List (List Byte)

namespace AlertPanel

/-- `AlertPanel::stop`. There is nothing to do in `AlertPanel::start`. -/
def stop (_ : AlertPanel) : AlertPanel := ⟨[]⟩

/-- `AlertPanel::render`, where the user may click "Clear". The consumer behind the handler
is taken to be one of alerts. -/
def render (clear : Bool) (h : Host) (panel : AlertPanel) : Option (AlertPanel × Host) :=
  let pressed (panel : AlertPanel) : AlertPanel := if clear then ⟨[]⟩ else panel
  match h.dispatcher.getHandler PacketID.alert.code with
  | none => some (pressed panel, h)
  | some c =>
    match h.consumers c with
    | .alert queue => some (pressed ⟨panel.alerts ++ queue⟩, h.setConsumer c (.alert []))
    | _ => none

/-- **A frame empties the queue into the list of alerts**, unless the user clears it. -/
theorem render_eq {panel : AlertPanel} {h : Host} {c : ConsumerPtr} {queue : List (List Byte)}
    (hhandler : h.dispatcher.getHandler PacketID.alert.code = some c)
    (hqueue : h.consumers c = .alert queue) (clear : Bool) :
    panel.render clear h = some (⟨if clear then [] else panel.alerts ++ queue⟩,
      h.setConsumer c (.alert [])) := by
  rw [render, hhandler]
  simp only [hqueue]
  split_ifs <;> rfl

end AlertPanel

end Houston
