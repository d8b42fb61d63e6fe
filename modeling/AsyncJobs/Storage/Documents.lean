import AsyncJobs.Model.Documents

/-!
# Task documents are read as they were written

A task whose times have a text and whose result payloads can be encoded can be saved. Loading
it gives back every field; the payloads of results are untyped values, so their numbers come
back as floats and their maps sorted, and a number beyond the floats makes the document
unreadable. Of the offset of a time only the minutes are kept. What was loaded does not change
when it is saved and loaded again, and can be saved unless a time has an offset of a day.
-/

namespace AsyncJobs

open Record Rfc3339 Numeral

section Times

def timeJson (t : Timestamp) : Json Literal := ofText (t.text.toOption.getD [])

def hasText (t : Timestamp) : Bool := t.text.toOption.isSome

theorem hasText_iff {t : Timestamp} : hasText t = true ↔ ∃ text, t.text = .ok text := by
  unfold hasText
  cases h : t.text with
  | error err => simp [Except.toOption]
  | ok text => simp [Except.toOption]

theorem marshalTime_givesIf (goType : String) (t : Timestamp) :
    GivesIf (hasText t) (timeJson t) (marshalTime goType t) := by
  unfold marshalTime hasText timeJson
  cases t.text with
  | error err => exact ⟨_, rfl⟩
  | ok text => rfl

theorem timestamp_timeJson {t : Timestamp} (h : hasText t = true) (old : Timestamp) :
    timestamp (written (timeJson t)) old = some t.wholeMinutes := by
  obtain ⟨text, htext⟩ := hasText_iff.mp h
  have hjson : timeJson t = ofText text := by
    rw [timeJson, htext]
    rfl
  rw [hjson, timestamp_written htext]

theorem hasText_zeroTime : hasText zeroTime = true := by decide +kernel

theorem isRead_zeroTime : zeroTime.IsRead where
  offset := rfl
  exists_text _ := hasText_iff.mp hasText_zeroTime

def withinDay (t : Timestamp) : Bool := t.zone.natAbs < 1440

theorem hasText_of_isRead {t : Timestamp} (h : t.IsRead) : hasText t = withinDay t := by
  unfold withinDay
  by_cases hday : t.zone.natAbs < 1440
  · rw [hasText_iff.mpr (h.exists_text hday), decide_eq_true hday]
  · rw [decide_eq_false hday, ← Bool.not_eq_true, hasText_iff]
    rintro ⟨text, htext⟩
    unfold Timestamp.text at htext
    split_ifs at htext
    omega

end Times

section Payloads

def payloadJson (x : AnyDocument) : Json Literal := x.toOption.getD .null

def encodes (x : AnyDocument) : Bool := x.toOption.isSome

theorem encodes_givesIf (x : AnyDocument) : GivesIf (encodes x) (payloadJson x) x := by
  cases x with
  | error err => exact ⟨err, rfl⟩
  | ok v => rfl

/-- Every number of the payload is within the range of the floats. -/
def payloadLoads (x : AnyDocument) : Bool :=
  ((payloadJson x).map Literal.value).numbers.all fun x => (parseFloat x).isSome

def reloadPayload (x : AnyDocument) : AnyDocument :=
  .ok ((((payloadJson x).map Literal.value).map fun x => (parseFloat x).getD .zero).canonical.map
    formatFloat)

theorem anyValue_written (x old : AnyDocument) :
    anyValue (written (payloadJson x)) old =
      if payloadLoads x then some (reloadPayload x) else none := by
  have hvalue : (written (payloadJson x)).map Scanned.value =
    (payloadJson x).map Literal.value := Json.map_map ..
  unfold anyValue unmarshalAny payloadLoads
  rw [hvalue]
  split_ifs <;> rfl

def IsLoaded (x : AnyDocument) : Prop :=
  ∃ a : Any, a.canonical = a ∧ x = .ok (a.map formatFloat)

theorem isLoaded_anyValue : anyValue.Keeps IsLoaded := by
  intro v old x hold hx
  unfold anyValue unmarshalAny at hx
  split_ifs at hx
  cases hx
  exact ⟨_, Json.canonical_canonical _, rfl⟩

theorem parseFloat_formatFloat (f : Float64) : parseFloat (formatFloat f).value = some f := by
  rw [formatFloat_value]
  exact parseFloat_value (Binary64.nearest_shortest f.finite)

theorem IsLoaded.encodes {x : AnyDocument} (h : IsLoaded x) : encodes x = true := by
  obtain ⟨a, -, rfl⟩ := h
  rfl

theorem IsLoaded.reload {x : AnyDocument} (h : IsLoaded x) :
    payloadLoads x = true ∧ reloadPayload x = x := by
  obtain ⟨a, hcanonical, rfl⟩ := h
  have hwritten : (payloadJson (.ok (a.map formatFloat))).map Literal.value =
    a.map fun f => (formatFloat f).value := Json.map_map ..
  constructor
  · rw [payloadLoads, hwritten, List.all_eq_true]
    intro x hx
    obtain ⟨f, -, rfl⟩ := Json.mem_numbers_map hx
    rw [parseFloat_formatFloat]
    rfl
  · have hsame : (a.map fun f => (formatFloat f).value).map
        (fun x => (parseFloat x).getD Float64.zero) = a := by
      rw [Json.map_map, Json.map_eq_self_iff]
      intro f _
      show (parseFloat (formatFloat f).value).getD Float64.zero = f
      rw [parseFloat_formatFloat, Option.getD_some]
    rw [reloadPayload, hwritten, hsame, hcanonical]

end Payloads

namespace ResultDocument

def json (r : ResultDocument) : Json Literal :=
  .object [member "payload" (some (payloadJson r.payload)),
    member "completed" (some (timeJson r.completedAt))].flatten

/-- The time has a text and the payload can be encoded. -/
def writable (r : ResultDocument) : Bool := encodes r.payload && hasText r.completedAt

def loads (r : ResultDocument) : Bool := payloadLoads r.payload

def reload (r : ResultDocument) : ResultDocument where
  payload := reloadPayload r.payload
  completedAt := r.completedAt.wholeMinutes

theorem marshal_givesIf (r : ResultDocument) : GivesIf r.writable r.json r.marshal :=
  (encodes_givesIf r.payload).bind ((marshalTime_givesIf "time.Time" r.completedAt).map _)

def pointerJson : Option ResultDocument → Json Literal
  | none => .null
  | some r => r.json

theorem marshalPointer_givesIf (o : Option ResultDocument) :
    GivesIf (o.all writable) (pointerJson o) (marshalPointer o) := by
  cases o with
  | none => rfl
  | some r => exact r.marshal_givesIf

theorem decode_json {r : ResultDocument} (hwritable : r.writable = true) :
    object fields (written r.json) zero = if r.loads then some r.reload else none := by
  have htime := timestamp_timeJson (Bool.and_eq_true_iff.mp hwritable).2
  have hpayload := anyValue_written r.payload zero.payload
  rw [← loads] at hpayload
  rw [json, written_object, object, assign_member fields "payload" rfl]
  cases hloads : r.loads with
  | false =>
    rw [hloads] at hpayload
    rw [store_none hpayload]
    rfl
  | true =>
    rw [hloads] at hpayload
    rw [store_some hpayload, Option.bind_some, assign_member fields "completed" rfl,
      store_some (htime _), Option.bind_some]
    rfl

theorem decoder_json {o : Option ResultDocument} (hwritable : o.all writable = true)
    (old : Option ResultDocument) (hold : old = none) :
    decoder (written (pointerJson o)) old =
      if o.all loads then some (o.map reload) else none := by
  subst hold
  cases o with
  | none => rfl
  | some r =>
    show (object fields (written r.json) zero).map some = _
    rw [decode_json hwritable]
    simp only [Option.all_some, Option.map_some]
    split_ifs <;> rfl

structure Loaded (r : ResultDocument) : Prop where
  payload : IsLoaded r.payload
  completedAt : r.completedAt.IsRead

def offsetWithinDay (r : ResultDocument) : Bool := withinDay r.completedAt

theorem Loaded.writable {r : ResultDocument} (h : r.Loaded) : r.writable = r.offsetWithinDay := by
  rw [ResultDocument.writable, h.payload.encodes, Bool.true_and, hasText_of_isRead h.completedAt,
    offsetWithinDay]

theorem Loaded.loads {r : ResultDocument} (h : r.Loaded) : r.loads = true := h.payload.reload.1

theorem Loaded.reload {r : ResultDocument} (h : r.Loaded) : r.reload = r := by
  rw [ResultDocument.reload, h.payload.reload.2, h.completedAt.wholeMinutes]

theorem loaded_zero : zero.Loaded where
  payload := ⟨.null, rfl, rfl⟩
  completedAt := isRead_zeroTime

theorem keeps_fields : (object fields).Keeps Loaded := by
  apply keeps_object
  simp only [fields, List.forall_mem_cons]
  exact ⟨keeps_field _ isLoaded_anyValue (fun r h => h.payload)
      fun r x h hx => ⟨hx, h.completedAt⟩,
    keeps_field _ keeps_timestamp (fun r h => h.completedAt)
      fun r x h hx => ⟨h.payload, hx⟩,
    List.forall_mem_nil _⟩

theorem keeps_decoder : decoder.Keeps fun o => ∀ r ∈ o, r.Loaded :=
  keeps_pointer loaded_zero keeps_fields

theorem all_writable {o : Option ResultDocument} (h : ∀ r ∈ o, r.Loaded) :
    o.all ResultDocument.writable = o.all offsetWithinDay := by
  cases o with
  | none => rfl
  | some r => exact (h r rfl).writable

theorem all_loads {o : Option ResultDocument} (h : ∀ r ∈ o, r.Loaded) :
    o.all ResultDocument.loads = true := by
  cases o with
  | none => rfl
  | some r => exact (h r rfl).loads

theorem map_reload {o : Option ResultDocument} (h : ∀ r ∈ o, r.Loaded) :
    o.map ResultDocument.reload = o := by
  cases o with
  | none => rfl
  | some r => exact congrArg some (h r rfl).reload

end ResultDocument

namespace TaskDocument

/-- Every time of the task has a text and every payload of a result can be encoded. -/
def writable (d : TaskDocument) : Bool :=
  (d.dependencyResults.list.all fun e => e.2.all ResultDocument.writable) &&
    (d.deadline.all hasText && (d.result.all ResultDocument.writable &&
      (hasText d.createdAt && d.lastTriedAt.all hasText)))

/-- No payload of a result has a number beyond the floats. -/
def loads (d : TaskDocument) : Bool :=
  (d.dependencyResults.list.all fun e => e.2.all ResultDocument.loads) &&
    d.result.all ResultDocument.loads

/-- The task as it is loaded: payloads as untyped values, times in whole minutes of offset. -/
def reload (d : TaskDocument) : TaskDocument :=
  { d with
    dependencyResults := d.dependencyResults.map (Option.map ResultDocument.reload)
    deadline := d.deadline.map Timestamp.wholeMinutes
    result := d.result.map ResultDocument.reload
    createdAt := d.createdAt.wholeMinutes
    lastTriedAt := d.lastTriedAt.map Timestamp.wholeMinutes }

def json (d : TaskDocument) : Json Literal :=
  .object (d.members
    (d.dependencyResults.list.map fun e => (e.1, ResultDocument.pointerJson e.2))
    (d.deadline.map timeJson) (d.result.map ResultDocument.json) (timeJson d.createdAt)
    (d.lastTriedAt.map timeJson)).flatten

theorem marshal_givesIf (d : TaskDocument) : GivesIf d.writable (document d.json) d.marshal := by
  have hresults := GivesIf.list (fun e : String × Option ResultDocument =>
    (ResultDocument.marshalPointer_givesIf e.2).map fun v => (e.1, v)) d.dependencyResults.list
  apply hresults.bind
  apply (GivesIf.option (marshalTime_givesIf "*time.Time") d.deadline).bind
  apply (GivesIf.option ResultDocument.marshal_givesIf d.result).bind
  apply (marshalTime_givesIf "time.Time" d.createdAt).bind
  exact (GivesIf.option (marshalTime_givesIf "*time.Time") d.lastTriedAt).map _

theorem map_results {d : TaskDocument}
    (h : (d.dependencyResults.list.all fun e => e.2.all ResultDocument.writable) = true) :
    map none ResultDocument.decoder (written (.object (d.dependencyResults.list.map
        fun e => (e.1, ResultDocument.pointerJson e.2)))) .empty =
      if d.dependencyResults.list.all fun e => e.2.all ResultDocument.loads then
        some (d.dependencyResults.map (Option.map ResultDocument.reload))
      else none := by
  apply map_written ResultDocument.pointerJson (Option.all ResultDocument.loads)
    (Option.map ResultDocument.reload)
  intro e he
  exact ResultDocument.decoder_json (List.all_eq_true.mp h e he) none rfl

theorem store_results {d : TaskDocument}
    (h : (d.dependencyResults.list.all fun e => e.2.all ResultDocument.writable) = true)
    {s : TaskDocument} (hs : s.dependencyResults = .empty) :
    store (field "dependency_results"
        (.mk dependencyResults fun x d => { d with dependencyResults := x })
        (map none ResultDocument.decoder))
      (omitIf (d.dependencyResults.list.map fun e =>
          (e.1, ResultDocument.pointerJson e.2)).isEmpty
        (.object (d.dependencyResults.list.map fun e => (e.1, ResultDocument.pointerJson e.2)))) s =
      if d.dependencyResults.list.all fun e => e.2.all ResultDocument.loads then
        some { s with
          dependencyResults := d.dependencyResults.map (Option.map ResultDocument.reload) }
      else none := by
  have hread := map_results h
  rw [← hs] at hread
  cases hlist : d.dependencyResults.list with
  | nil =>
    have hnone : d.dependencyResults.map (Option.map ResultDocument.reload) =
        s.dependencyResults := by
      rw [hs]
      apply Entries.ext
      show d.dependencyResults.list.map _ = []
      rw [hlist, List.map_nil]
    rw [hnone]
    rfl
  | cons e entries =>
    rw [hlist] at hread
    split_ifs at hread ⊢
    · exact store_some hread
    · exact store_none hread

theorem store_result {d : TaskDocument} (h : d.result.all ResultDocument.writable = true)
    {s : TaskDocument} (hs : s.result = none) :
    store (field "result" (.mk result fun x d => { d with result := x }) ResultDocument.decoder)
      (d.result.map ResultDocument.json) s =
      if d.result.all ResultDocument.loads then
        some { s with result := d.result.map ResultDocument.reload }
      else none := by
  have hread := ResultDocument.decoder_json h s.result hs
  cases hresult : d.result with
  | none =>
    show some s = some { s with result := none }
    rw [← hs]
  | some r =>
    rw [hresult] at hread
    split_ifs at hread ⊢
    · exact store_some hread
    · exact store_none hread

theorem pointer_timeJson {o : Option Timestamp} (h : o.all hasText = true) (x : Json Literal)
    (hx : o.map timeJson = some x) :
    pointer zeroTime timestamp (written x) none = some (o.map Timestamp.wholeMinutes) := by
  cases o with
  | none => cases hx
  | some t =>
    cases hx
    apply pointer_written
    · intro hnull
      cases hnull
    · exact timestamp_timeJson h zeroTime

theorem map_wholeMinutes_eq_none {o : Option Timestamp} (h : o.map timeJson = none) :
    o.map Timestamp.wholeMinutes = none := by
  rw [Option.map_eq_none_iff] at h ⊢
  exact h

theorem decode_json {d : TaskDocument} (hwritable : d.writable = true) :
    object fields (written d.json) zero = if d.loads then some d.reload else none := by
  simp only [writable, Bool.and_eq_true] at hwritable
  obtain ⟨hresults, hdeadline, hresult, hcreated, htried⟩ := hwritable
  rw [json, written_object, object, members, assign_some fields rfl _ rfl,
    assign_some fields rfl _ rfl, assign_some fields rfl _ rfl,
    assign_omitIf fields rfl _ (strings_written d.dependencies) List.isEmpty_iff.mp,
    assign_member fields "dependency_results" rfl, store_results hresults rfl, loads]
  cases d.dependencyResults.list.all fun e => e.2.all ResultDocument.loads with
  | false => simp only [Bool.false_eq_true, if_false, Option.bind_none, Bool.false_and]
  | true =>
    rw [if_pos rfl, Option.bind_some, assign_omitIf fields rfl _ rfl (Bool.not_eq_true' _).mp,
      assign_some fields rfl _ (bytes_written d.payload _),
      assign_option fields rfl _ (pointer_timeJson hdeadline) map_wholeMinutes_eq_none,
      assign_some fields rfl _ (int64_written d.maxTries _),
      assign_member fields "result" rfl, store_result hresult rfl]
    cases d.result.all ResultDocument.loads with
    | false => simp only [Bool.false_eq_true, if_false, Option.bind_none, Bool.and_false]
    | true =>
      rw [if_pos rfl, Option.bind_some, assign_some fields rfl _ rfl,
        assign_some fields rfl _ (timestamp_timeJson hcreated _),
        assign_option fields rfl _ (pointer_timeJson htried) map_wholeMinutes_eq_none,
        assign_some fields rfl _ (int64_written d.tries _),
        assign_omitIf fields rfl _ rfl String.isEmpty_iff.mp,
        assign_omitIf fields rfl _ rfl String.isEmpty_iff.mp]
      rfl

structure Loaded (d : TaskDocument) : Prop where
  dependencyResults : ∀ e ∈ d.dependencyResults.list, ∀ r ∈ e.2, r.Loaded
  deadline : ∀ t ∈ d.deadline, t.IsRead
  result : ∀ r ∈ d.result, r.Loaded
  createdAt : d.createdAt.IsRead
  lastTriedAt : ∀ t ∈ d.lastTriedAt, t.IsRead

theorem loaded_zero : zero.Loaded where
  dependencyResults e he := by cases he
  deadline t ht := by cases ht
  result r hr := by cases hr
  createdAt := isRead_zeroTime
  lastTriedAt t ht := by cases ht

theorem keeps_pointer_timestamp : (pointer zeroTime timestamp).Keeps
    fun o => ∀ t ∈ o, t.IsRead :=
  keeps_pointer isRead_zeroTime keeps_timestamp

theorem keeps_results : (map none ResultDocument.decoder).Keeps
    fun entries => ∀ e ∈ entries.list, ∀ r ∈ e.2, r.Loaded := by
  apply keeps_map (P := fun o : Option ResultDocument => ∀ r ∈ o, r.Loaded) _
    ResultDocument.keeps_decoder
  intro r hr
  cases hr

theorem Loaded.of_eq {d d' : TaskDocument} (h : d.Loaded)
    (hresults : d'.dependencyResults = d.dependencyResults) (hdeadline : d'.deadline = d.deadline)
    (hresult : d'.result = d.result) (hcreated : d'.createdAt = d.createdAt)
    (htried : d'.lastTriedAt = d.lastTriedAt) : d'.Loaded where
  dependencyResults := hresults ▸ h.dependencyResults
  deadline := hdeadline ▸ h.deadline
  result := hresult ▸ h.result
  createdAt := hcreated ▸ h.createdAt
  lastTriedAt := htried ▸ h.lastTriedAt

theorem keeps_fields : (object fields).Keeps Loaded := by
  apply keeps_object
  simp only [fields, List.forall_mem_cons]
  refine ⟨keeps_other _ _ fun _ _ h => h.of_eq rfl rfl rfl rfl rfl,
    keeps_other _ _ fun _ _ h => h.of_eq rfl rfl rfl rfl rfl,
    keeps_other _ _ fun _ _ h => h.of_eq rfl rfl rfl rfl rfl,
    keeps_other _ _ fun _ _ h => h.of_eq rfl rfl rfl rfl rfl,
    keeps_field _ keeps_results (fun d h => h.dependencyResults)
      fun d x h hx => { h with dependencyResults := hx },
    keeps_other _ _ fun _ _ h => h.of_eq rfl rfl rfl rfl rfl,
    keeps_other _ _ fun _ _ h => h.of_eq rfl rfl rfl rfl rfl,
    keeps_field _ keeps_pointer_timestamp (fun d h => h.deadline)
      fun d x h hx => { h with deadline := hx },
    keeps_other _ _ fun _ _ h => h.of_eq rfl rfl rfl rfl rfl,
    keeps_field _ ResultDocument.keeps_decoder (fun d h => h.result)
      fun d x h hx => { h with result := hx },
    keeps_other _ _ fun _ _ h => h.of_eq rfl rfl rfl rfl rfl,
    keeps_field _ keeps_timestamp (fun d h => h.createdAt)
      fun d x h hx => { h with createdAt := hx },
    keeps_field _ keeps_pointer_timestamp (fun d h => h.lastTriedAt)
      fun d x h hx => { h with lastTriedAt := hx },
    keeps_other _ _ fun _ _ h => h.of_eq rfl rfl rfl rfl rfl,
    keeps_other _ _ fun _ _ h => h.of_eq rfl rfl rfl rfl rfl,
    keeps_other _ _ fun _ _ h => h.of_eq rfl rfl rfl rfl rfl,
    List.forall_mem_nil _⟩

theorem loaded_of_unmarshal {bytes : Bytes} {d : TaskDocument} (h : unmarshal bytes = some d) :
    d.Loaded := by
  obtain ⟨v, -, hv⟩ := Option.bind_eq_some_iff.mp h
  exact keeps_fields v zero d loaded_zero hv

/-- No time of the task has an offset of a day or more. -/
def offsetsWithinDay (d : TaskDocument) : Bool :=
  (d.dependencyResults.list.all fun e => e.2.all ResultDocument.offsetWithinDay) &&
    (d.deadline.all withinDay && (d.result.all ResultDocument.offsetWithinDay &&
      (withinDay d.createdAt && d.lastTriedAt.all withinDay)))

theorem all_hasText {o : Option Timestamp} (h : ∀ t ∈ o, t.IsRead) :
    o.all hasText = o.all withinDay := by
  cases o with
  | none => rfl
  | some t => exact hasText_of_isRead (h t rfl)

theorem map_wholeMinutes {o : Option Timestamp} (h : ∀ t ∈ o, t.IsRead) :
    o.map Timestamp.wholeMinutes = o := by
  cases o with
  | none => rfl
  | some t => exact congrArg some (h t rfl).wholeMinutes

theorem Loaded.writable {d : TaskDocument} (h : d.Loaded) : d.writable = d.offsetsWithinDay := by
  have hresults : (d.dependencyResults.list.all fun e => e.2.all ResultDocument.writable) =
      d.dependencyResults.list.all fun e => e.2.all ResultDocument.offsetWithinDay := by
    rw [Bool.eq_iff_iff, List.all_eq_true, List.all_eq_true]
    apply forall₂_congr
    intro e he
    rw [ResultDocument.all_writable (h.dependencyResults e he)]
  rw [TaskDocument.writable, hresults, all_hasText h.deadline, ResultDocument.all_writable h.result,
    hasText_of_isRead h.createdAt, all_hasText h.lastTriedAt, offsetsWithinDay]

theorem Loaded.loads {d : TaskDocument} (h : d.Loaded) : d.loads = true := by
  simp only [TaskDocument.loads, Bool.and_eq_true, List.all_eq_true]
  exact ⟨fun e he => ResultDocument.all_loads (h.dependencyResults e he),
    ResultDocument.all_loads h.result⟩

theorem Loaded.reload {d : TaskDocument} (h : d.Loaded) : d.reload = d := by
  have hresults : d.dependencyResults.map (Option.map ResultDocument.reload) =
      d.dependencyResults := by
    apply Entries.ext
    apply Json.list_map_eq_self_iff.mpr
    intro e he
    exact Prod.ext rfl (ResultDocument.map_reload (h.dependencyResults e he))
  rw [TaskDocument.reload, hresults, ResultDocument.map_reload h.result,
    map_wholeMinutes h.deadline, h.createdAt.wholeMinutes, map_wholeMinutes h.lastTriedAt]

theorem unmarshal_document {d : TaskDocument} (h : d.writable = true) :
    unmarshal (document d.json) = if d.loads then some d.reload else none := by
  rw [unmarshal, scan_document, Option.bind_some, decode_json h]

end TaskDocument

/-- A task is saved exactly if all its times can be written and all payloads of its results
encoded. It is loaded with the same fields, only that its results are the untyped values of
their payloads and of the offsets of times the minutes are left, and if a payload has a number
beyond the floats it cannot be loaded at all. -/
theorem saved_task_loads_with_its_fields (d : TaskDocument) :
    match d.marshal with
    | .error _ => d.writable = false
    | .ok bytes => d.writable = true ∧
        TaskDocument.unmarshal bytes = if d.loads then some d.reload else none := by
  have hgives := d.marshal_givesIf
  cases hwritable : d.writable with
  | false =>
    rw [hwritable] at hgives
    obtain ⟨err, herr⟩ := hgives
    rw [herr]
  | true =>
    rw [hwritable] at hgives
    rw [show d.marshal = _ from hgives]
    exact ⟨rfl, TaskDocument.unmarshal_document hwritable⟩

/-- Whatever was loaded is saved so that it is loaded as the same task, or it cannot be saved,
because a time of it has an offset of a day or more. -/
theorem loaded_task_is_saved_unchanged {bytes : Bytes} {d : TaskDocument}
    (h : TaskDocument.unmarshal bytes = some d) :
    match d.marshal with
    | .error _ => d.offsetsWithinDay = false
    | .ok saved => d.offsetsWithinDay = true ∧ TaskDocument.unmarshal saved = some d := by
  have hloaded := TaskDocument.loaded_of_unmarshal h
  have hgives := d.marshal_givesIf
  rw [hloaded.writable] at hgives
  cases hoffsets : d.offsetsWithinDay with
  | false =>
    rw [hoffsets] at hgives
    obtain ⟨err, herr⟩ := hgives
    rw [herr]
  | true =>
    have hread := TaskDocument.unmarshal_document (hloaded.writable.trans hoffsets)
    rw [hloaded.loads, hloaded.reload] at hread
    rw [hoffsets] at hgives
    rw [show d.marshal = _ from hgives]
    exact ⟨rfl, hread⟩

theorem loaded_task_is_saved_active :
    ∃ d saved, TaskDocument.unmarshal (document (.object [("ID", .string "1"), ("unknown", .null),
        ("dependencies", .array [.string "2", .null]), ("state", .string "active")])) = some d ∧
      d.dependencies = ["2", ""] ∧ d.marshal = .ok saved ∧
      TaskDocument.unmarshal saved = some d := by
  have hload : TaskDocument.unmarshal (document (.object [("ID", .string "1"), ("unknown", .null),
      ("dependencies", .array [.string "2", .null]), ("state", .string "active")])) =
      some { TaskDocument.zero with id := "1", dependencies := ["2", ""], state := "active" } := by
    rw [TaskDocument.unmarshal, scan_document]
    rfl
  have hsaved := loaded_task_is_saved_unchanged hload
  split at hsaved
  · exact absurd hsaved (by decide)
  · rename_i saved hmarshal
    exact ⟨_, saved, hload, rfl, hmarshal, hsaved.2⟩

end AsyncJobs
