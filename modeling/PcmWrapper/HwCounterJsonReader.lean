import PcmWrapper.JsonInput
import PcmWrapper.Library.KeyedStore

/-!
# The database of hardware events

`HwCounterJsonReader` keeps one map from event names to events for all CPU models. Loading a file
for a model converts its records one after the other; a record with a new name is inserted, and a
record whose name is already there only adds the model to the event that is there. `getCounters`
returns the events that support a model.

The map is an association list without duplicate keys, and the reader carries the fact that every
event is stored under its own identifier. The order in which an `std::unordered_map` is gone through
is unspecified, so no result below depends on the order of `getCounters`.

`mergeCounter_eq_upsert` makes the loop body a step of the keyed store of the library, so its closed
form says what the map holds after any sequence of records.
-/

set_option autoImplicit false
set_option relaxedAutoImplicit false

namespace PcmWrapper

open Library

/-! ### Events -/

/-- `HwEvent`. The getters `getEventNumber`, `getUMaskValue`, `getIdentifier` and
`getSupportedModels` return the fields. -/
structure HwEvent where
  eventNumber : ℤ
  umaskValue : ℤ
  name : String
  supportedCpuModels : List ℤ
  deriving DecidableEq

/-- The default constructor `HwEvent()`. -/
def HwEvent.default : HwEvent := ⟨0, 0, "", []⟩

/-- `addSupportedCpuModel`. -/
def HwEvent.addSupportedCpuModel (event : HwEvent) (cpuModel : ℤ) : HwEvent :=
  { event with supportedCpuModels := event.supportedCpuModels ++ [cpuModel] }

/-- `supports`. -/
def HwEvent.supports (event : HwEvent) (cpuModel : ℤ) : Bool :=
  event.supportedCpuModels.contains cpuModel

/-- The name, event number and umask of an event: what a CPU model gets of it. -/
def HwEvent.encoding (event : HwEvent) : String × ℤ × ℤ :=
  (event.name, event.eventNumber, event.umaskValue)

/-! ### Records -/

def c_EventName : String := "EventName"
def c_EventCode : String := "EventCode"
def c_UMask : String := "UMask"

/-- `HwCounterJsonReader::convert`. -/
def convert (serializedCounter : Json) : Except (Interrupt Exception) HwEvent := do
  let hexaEventMask ← serializedCounter.stringAt c_EventCode
  let hexaUMask ← serializedCounter.stringAt c_UMask
  let hwCounterName ← serializedCounter.stringAt c_EventName
  let eventMask ← stoi hexaEventMask
  let umask ← stoi hexaUMask
  return ⟨eventMask, umask, hwCounterName, []⟩

/-- What `convert` returns: the parsed codes and the name of its record, for no model yet. -/
theorem convert_eq_ok {serializedCounter : Json} {counter : HwEvent} :
    convert serializedCounter = .ok counter ↔ ∃ hexaEventMask hexaUMask,
      serializedCounter.member c_EventCode = some (.string hexaEventMask) ∧
      serializedCounter.member c_UMask = some (.string hexaUMask) ∧
      serializedCounter.member c_EventName = some (.string counter.name) ∧
      stoi hexaEventMask = .ok counter.eventNumber ∧
      stoi hexaUMask = .ok counter.umaskValue ∧ counter.supportedCpuModels = [] := by
  simp only [convert, except_bind_eq_ok, Json.stringAt_eq_ok]
  constructor
  · rintro ⟨hexaEventMask, hcode, hexaUMask, humask, name, hname, eventMask, hcodeValue, umask,
      humaskValue, hcounter⟩
    cases hcounter
    exact ⟨hexaEventMask, hexaUMask, hcode, humask, hname, hcodeValue, humaskValue, rfl⟩
  · rintro ⟨hexaEventMask, hexaUMask, hcode, humask, hname, hcodeValue, humaskValue, hmodels⟩
    refine ⟨hexaEventMask, hcode, hexaUMask, humask, counter.name, hname, counter.eventNumber,
      hcodeValue, counter.umaskValue, humaskValue, ?_⟩
    rw [← hmodels]
    rfl

/-! ### The reader -/

/-- `HwCounterJsonReader`, with every event stored under its own identifier. -/
structure HwCounterJsonReader where
  hwCounters : AList fun _ : String ↦ HwEvent
  keyed : ∀ name event, hwCounters.lookup name = some event → event.name = name

/-- A reader that has loaded nothing. -/
def HwCounterJsonReader.empty : HwCounterJsonReader where
  hwCounters := ∅
  keyed := fun name event h ↦ by
    rw [AList.lookup_empty] at h
    cases h

/-- The key of a record that is merged for a CPU model. -/
def mergeKey (record : HwEvent × ℤ) : String := record.1.name

/-- What the first record of a name stores. -/
def mergeCreate (record : HwEvent × ℤ) : HwEvent := record.1.addSupportedCpuModel record.2

/-- What a later record of a name makes of the stored event. -/
def mergeExtend (event : HwEvent) (record : HwEvent × ℤ) : HwEvent :=
  event.addSupportedCpuModel record.2

/-- The map after the loop body of `loadCounters`. -/
def mergeCounter (hwCounters : AList fun _ : String ↦ HwEvent) (counter : HwEvent)
    (cpuModel : ℤ) : AList fun _ : String ↦ HwEvent :=
  match hwCounters.lookup counter.name with
  | none => hwCounters.insert counter.name (counter.addSupportedCpuModel cpuModel)
  | some found => hwCounters.insert counter.name (found.addSupportedCpuModel cpuModel)

/-- The loop body is a step of a keyed store: the first record of a name creates its event, and a
later one extends it by its model. -/
theorem mergeCounter_eq_upsert (hwCounters : AList fun _ : String ↦ HwEvent) (counter : HwEvent)
    (cpuModel : ℤ) : mergeCounter hwCounters counter cpuModel =
      upsert mergeKey mergeCreate mergeExtend hwCounters (counter, cpuModel) := by
  unfold mergeCounter upsert mergeKey
  cases hwCounters.lookup counter.name <;> rfl

/-- The loop body of `loadCounters` behind `convert`. -/
def HwCounterJsonReader.addCounter (reader : HwCounterJsonReader) (counter : HwEvent)
    (cpuModel : ℤ) : HwCounterJsonReader where
  hwCounters := mergeCounter reader.hwCounters counter cpuModel
  keyed := fun name event h ↦ by
    rw [mergeCounter_eq_upsert, lookup_upsert] at h
    by_cases hname : mergeKey (counter, cpuModel) = name
    · rw [if_pos hname, absorb] at h
      cases hfound : reader.hwCounters.lookup name with
      | none =>
        rw [hfound] at h
        cases h
        exact hname
      | some found =>
        rw [hfound] at h
        cases h
        exact reader.keyed name found hfound
    · rw [if_neg hname] at h
      exact reader.keyed name event h

/-- The files a program can open, and the JSON parser. -/
structure Environment where
  readFile : String → Option String
  parseJson : String → Except Exception Json

/-- The loop of `loadCounters`. -/
def loadElements (cpuModel : ℤ) : List Json → Program HwCounterJsonReader Unit
  | [] => pure ()
  | element :: rest => do
    let counter ← fromExcept (convert element)
    modifyState (·.addCounter counter cpuModel)
    loadElements cpuModel rest

/-- `HwCounterJsonReader::loadCounters`. Parsing a stream that is not open throws. -/
def loadCounters (handler : FatalHandler) (env : Environment) (filePath : String)
    (cpuModel : ℤ) : Program HwCounterJsonReader Unit := do
  match env.readFile filePath with
  | none =>
    handleFatalError handler (cString ("Could not open file " ++ filePath))
    interrupt (.thrown (.invalidArgument "stream error"))
  | some text =>
    match env.parseJson text with
    | .error exception => interrupt (.thrown exception)
    | .ok j => loadElements cpuModel j.elements

/-- `HwCounterJsonReader::getCounters`. -/
def HwCounterJsonReader.getCounters (reader : HwCounterJsonReader) (cpuModel : ℤ) :
    List HwEvent :=
  (reader.hwCounters.entries.map Sigma.snd).filter (·.supports cpuModel)

/-- The events of a CPU model are the stored events that support it. -/
theorem HwCounterJsonReader.mem_getCounters {reader : HwCounterJsonReader} {cpuModel : ℤ}
    {event : HwEvent} : event ∈ reader.getCounters cpuModel ↔
      reader.hwCounters.lookup event.name = some event ∧ event.supports cpuModel := by
  rw [getCounters, List.mem_filter, List.mem_map]
  refine and_congr_left fun _ ↦ ⟨?_, fun hlookup ↦ ?_⟩
  · rintro ⟨⟨name, stored⟩, hentry, rfl⟩
    have hlookup : reader.hwCounters.lookup name = some stored :=
      AList.mem_lookup_iff.mpr hentry
    rw [reader.keyed name stored hlookup, hlookup]
  · exact ⟨⟨event.name, event⟩, AList.mem_lookup_iff.mp hlookup, rfl⟩

/-- `getCounters` has one event for each name. -/
theorem HwCounterJsonReader.nodup_names (reader : HwCounterJsonReader) (cpuModel : ℤ) :
    ((reader.getCounters cpuModel).map HwEvent.name).Nodup := by
  have hkeys : (reader.hwCounters.entries.map Sigma.snd).map HwEvent.name =
      reader.hwCounters.keys := by
    rw [AList.keys, List.keys, List.map_map]
    refine List.map_congr_left fun entry hentry ↦ ?_
    exact reader.keyed entry.1 entry.2 (AList.mem_lookup_iff.mpr hentry)
  have hall : ((reader.hwCounters.entries.map Sigma.snd).map HwEvent.name).Nodup := by
    rw [hkeys]
    exact reader.hwCounters.keys_nodup
  exact hall.sublist (List.filter_sublist.map HwEvent.name)

/-- Two events of a CPU model with one name are the same event. -/
theorem HwCounterJsonReader.eq_of_name_eq {reader : HwCounterJsonReader} {cpuModel : ℤ}
    {first second : HwEvent} (hfirst : first ∈ reader.getCounters cpuModel)
    (hsecond : second ∈ reader.getCounters cpuModel) (hname : first.name = second.name) :
    first = second := by
  have hlookup := (mem_getCounters.mp hfirst).1
  rw [hname, (mem_getCounters.mp hsecond).1] at hlookup
  exact (Option.some.inj hlookup).symm

end PcmWrapper
