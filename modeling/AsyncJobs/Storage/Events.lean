import AsyncJobs.Model.Events
import AsyncJobs.Storage.Documents

/-!
# Lifecycle events are parsed as they were published

The id of an event has a time between 2014 and 2150, so every event can be written, whatever
the task is like. `ParseEventJSON` reads the bytes twice, once for the type and once for the
event; both agree on the type, for any bytes, because the fields of the base are also fields of
each event and no other name differs from theirs in case only. An event that was read can be
sent on unless its time has an offset of a day or more.
-/

namespace AsyncJobs

open Record Rfc3339 Numeral

theorem Ksuid.hasText_time (id : Ksuid) : hasText id.time = true := by
  have hlt := id.timestamp.toNat_lt
  apply hasText_iff.mpr
  apply Timestamp.exists_text
  · show ((0 : ℤ).tdiv 60).natAbs < 1440
    decide
  · unfold Timestamp.localNanos Ksuid.time Timestamp.nanosPerDay Timestamp.nanosPerSecond
    dsimp only
    omega
  · unfold Timestamp.localNanos Ksuid.time Timestamp.nanosPerDay Timestamp.nanosPerSecond
    dsimp only
    omega

section Reading

variable {α : Type} {fields : List (FieldOf α)} {zero e : α}

theorem unmarshalEvent_document {v : Json Literal} (h : object fields (written v) zero = some e) :
    unmarshalEvent fields zero (document v) = .ok e := by
  simp only [unmarshalEvent, scan_document, Option.bind_some, h]

theorem unmarshalEvent_ok {event : Bytes} (h : unmarshalEvent fields zero event = .ok e) :
    ∃ v, Json.scan event = some v ∧ object fields v zero = some e := by
  unfold unmarshalEvent at h
  split at h
  · cases h
  · rename_i hsome
    cases h
    exact Option.bind_eq_some_iff.mp hsome

theorem unmarshalEvent_base {base : α → BaseEvent} {large own : List (FieldOf α)}
    (hfields : List.Forall₂ (Refines base) BaseEvent.fields large)
    (hnames : ∀ f ∈ BaseEvent.fields, ∀ g ∈ own, foldName f.name ≠ foldName g.name)
    (hown : ∀ g ∈ own, Leaves base g) (hzero : base zero = .zero) {event : Bytes}
    (h : unmarshalEvent (large ++ own) zero event = .ok e) :
    unmarshalEvent BaseEvent.fields .zero event = .ok (base e) := by
  obtain ⟨v, hv, hobject⟩ := unmarshalEvent_ok h
  have hbase := object_refines hfields hnames hown hobject
  rw [hzero] at hbase
  simp only [unmarshalEvent, hv, Option.bind_some, hbase]

end Reading

namespace BaseEvent

theorem keeps_fields : (object fields).Keeps fun e => e.timeStamp.IsRead := by
  apply keeps_object
  unfold fields
  simp only [List.forall_mem_cons]
  exact ⟨keeps_other _ _ fun _ _ h => h, keeps_other _ _ fun _ _ h => h,
    keeps_field _ keeps_timestamp (fun _ h => h) fun _ _ _ h => h, List.forall_mem_nil _⟩

theorem isRead_of_unmarshal {e : BaseEvent} {event : Bytes}
    (h : unmarshalEvent fields zero event = .ok e) : e.timeStamp.IsRead := by
  obtain ⟨v, -, hobject⟩ := unmarshalEvent_ok h
  exact keeps_fields v zero e isRead_zeroTime hobject

end BaseEvent

namespace TaskStateChangeEvent

def json (e : TaskStateChangeEvent) : Json Literal :=
  .object (e.members (timeJson e.timeStamp)).flatten

theorem marshal_givesIf (e : TaskStateChangeEvent) :
    GivesIf (hasText e.timeStamp) (document e.json) e.marshal :=
  (marshalTime_givesIf "time.Time" e.timeStamp).map _

theorem decode_json {e : TaskStateChangeEvent} (h : hasText e.timeStamp = true)
    (hwhole : e.timeStamp.wholeMinutes = e.timeStamp) :
    object fields (written e.json) zero = some e := by
  have htime := timestamp_timeJson h
  rw [hwhole] at htime
  have hage : decide (e.age = 0) = true → e.age = 0 := of_decide_eq_true
  rw [json, written_object, object, members, BaseEvent.members, List.cons_append, List.cons_append,
    List.cons_append, List.nil_append, assign_some fields rfl _ rfl, assign_some fields rfl _ rfl,
    assign_some fields rfl _ (htime _), assign_some fields rfl _ rfl,
    assign_some fields rfl _ rfl, assign_some fields rfl _ (int64_written e.tries _),
    assign_omitIf fields rfl _ rfl String.isEmpty_iff.mp, assign_some fields rfl _ rfl,
    assign_omitIf fields rfl _ rfl String.isEmpty_iff.mp,
    assign_omitIf fields rfl _ (int64_written e.age _) hage]
  rfl

theorem baseFields_refines :
    List.Forall₂ (Refines toBaseEvent) BaseEvent.fields baseFields := by
  unfold BaseEvent.fields baseFields
  simp only [List.forall₂_cons, List.forall₂_nil_left_iff, and_true]
  exact ⟨refines_field _ _ (fun _ => rfl) fun _ _ => rfl,
    refines_field _ _ (fun _ => rfl) fun _ _ => rfl,
    refines_field _ _ (fun _ => rfl) fun _ _ => rfl⟩

theorem ownFields_leaves : ∀ g ∈ ownFields, Leaves toBaseEvent g := by
  unfold ownFields
  simp only [List.forall_mem_cons]
  exact ⟨leaves_field _ _ fun _ _ => rfl, leaves_field _ _ fun _ _ => rfl,
    leaves_field _ _ fun _ _ => rfl, leaves_field _ _ fun _ _ => rfl,
    leaves_field _ _ fun _ _ => rfl, leaves_field _ _ fun _ _ => rfl,
    leaves_field _ _ fun _ _ => rfl, List.forall_mem_nil _⟩

theorem unmarshal_base {e : TaskStateChangeEvent} {event : Bytes}
    (h : unmarshalEvent fields zero event = .ok e) :
    unmarshalEvent BaseEvent.fields .zero event = .ok e.toBaseEvent := by
  apply unmarshalEvent_base baseFields_refines _ ownFields_leaves rfl h
  decide

end TaskStateChangeEvent

namespace LeaderElectedEvent

def json (e : LeaderElectedEvent) : Json Literal :=
  .object (e.members (timeJson e.timeStamp)).flatten

theorem marshal_givesIf (e : LeaderElectedEvent) :
    GivesIf (hasText e.timeStamp) (document e.json) e.marshal :=
  (marshalTime_givesIf "time.Time" e.timeStamp).map _

theorem decode_json {e : LeaderElectedEvent} (h : hasText e.timeStamp = true)
    (hwhole : e.timeStamp.wholeMinutes = e.timeStamp) :
    object fields (written e.json) zero = some e := by
  have htime := timestamp_timeJson h
  rw [hwhole] at htime
  rw [json, written_object, object, members, BaseEvent.members, List.cons_append, List.cons_append,
    List.cons_append, List.nil_append, assign_some fields rfl _ rfl, assign_some fields rfl _ rfl,
    assign_some fields rfl _ (htime _), assign_some fields rfl _ rfl,
    assign_some fields rfl _ rfl]
  rfl

theorem baseFields_refines :
    List.Forall₂ (Refines toBaseEvent) BaseEvent.fields baseFields := by
  unfold BaseEvent.fields baseFields
  simp only [List.forall₂_cons, List.forall₂_nil_left_iff, and_true]
  exact ⟨refines_field _ _ (fun _ => rfl) fun _ _ => rfl,
    refines_field _ _ (fun _ => rfl) fun _ _ => rfl,
    refines_field _ _ (fun _ => rfl) fun _ _ => rfl⟩

theorem ownFields_leaves : ∀ g ∈ ownFields, Leaves toBaseEvent g := by
  unfold ownFields
  simp only [List.forall_mem_cons]
  exact ⟨leaves_field _ _ fun _ _ => rfl, leaves_field _ _ fun _ _ => rfl, List.forall_mem_nil _⟩

theorem unmarshal_base {e : LeaderElectedEvent} {event : Bytes}
    (h : unmarshalEvent fields zero event = .ok e) :
    unmarshalEvent BaseEvent.fields .zero event = .ok e.toBaseEvent := by
  apply unmarshalEvent_base baseFields_refines _ ownFields_leaves rfl h
  decide

end LeaderElectedEvent

def LifecycleEvent.kind : LifecycleEvent → String
  | taskStateChange _ => taskStateChangeEventType
  | leaderElected _ => leaderElectedEventType

/-- An event of the right type with a time that is written as it is, is parsed as itself. -/
theorem parseEventJSON_marshal {e : LifecycleEvent} (hkind : e.base.eventType = e.kind)
    (htime : hasText e.base.timeStamp = true)
    (hwhole : e.base.timeStamp.wholeMinutes = e.base.timeStamp) :
    ∃ bytes, e.marshal = .ok bytes ∧ parseEventJSON bytes = .ok (e, e.kind) := by
  cases e with
  | taskStateChange e =>
    have hgives := e.marshal_givesIf
    rw [show hasText e.timeStamp = true from htime] at hgives
    have hread := unmarshalEvent_document (TaskStateChangeEvent.decode_json htime hwhole)
    have hbase := TaskStateChangeEvent.unmarshal_base hread
    refine ⟨_, hgives, ?_⟩
    have htype : e.toBaseEvent.eventType = taskStateChangeEventType := hkind
    unfold parseEventJSON
    rw [hbase]
    simp only [bind, Except.bind, htype, if_true, hread]
    rfl
  | leaderElected e =>
    have hgives := e.marshal_givesIf
    rw [show hasText e.timeStamp = true from htime] at hgives
    have hread := unmarshalEvent_document (LeaderElectedEvent.decode_json htime hwhole)
    have hbase := LeaderElectedEvent.unmarshal_base hread
    refine ⟨_, hgives, ?_⟩
    have htype : e.toBaseEvent.eventType = leaderElectedEventType := hkind
    have hne : leaderElectedEventType ≠ taskStateChangeEventType := by decide
    unfold parseEventJSON
    rw [hbase]
    simp only [bind, Except.bind, htype, if_neg hne, if_true, hread]
    rfl

/-- Every event that is published can be written and is parsed as the event it was made as,
whatever the id that was drawn, the clock and the task. -/
theorem published_events_parse_as_made (eid : Ksuid) (now : Timestamp) (t : TaskDocument)
    (name component : String) :
    (∃ bytes, (newTaskStateChangeEvent eid now t).marshal = .ok bytes ∧
      parseEventJSON bytes =
        .ok (.taskStateChange (newTaskStateChangeEvent eid now t), taskStateChangeEventType)) ∧
    ∃ bytes, (newLeaderElectedEvent eid name component).marshal = .ok bytes ∧
      parseEventJSON bytes =
        .ok (.leaderElected (newLeaderElectedEvent eid name component),
          leaderElectedEventType) := by
  constructor
  · exact parseEventJSON_marshal (e := .taskStateChange (newTaskStateChangeEvent eid now t)) rfl
      eid.hasText_time (Timestamp.wholeMinutes_eq rfl)
  · exact parseEventJSON_marshal (e := .leaderElected (newLeaderElectedEvent eid name component))
      rfl eid.hasText_time (Timestamp.wholeMinutes_eq rfl)

theorem parseEventJSON_ok {event : Bytes} {e : LifecycleEvent} {kind : String}
    (h : parseEventJSON event = .ok (e, kind)) :
    kind = e.kind ∧ e.base.eventType = kind ∧ e.base.timeStamp.IsRead := by
  unfold parseEventJSON at h
  cases hbase : unmarshalEvent BaseEvent.fields .zero event with
  | error err =>
    rw [hbase] at h
    cases h
  | ok base =>
    rw [hbase] at h
    simp only [bind, Except.bind] at h
    split_ifs at h with htask hleader
    · cases hread : unmarshalEvent TaskStateChangeEvent.fields .zero event with
      | error err =>
        rw [hread] at h
        cases h
      | ok e' =>
        rw [hread] at h
        cases h
        have hsame := TaskStateChangeEvent.unmarshal_base hread
        rw [hbase] at hsame
        cases hsame
        exact ⟨htask, rfl, BaseEvent.isRead_of_unmarshal hbase⟩
    · cases hread : unmarshalEvent LeaderElectedEvent.fields .zero event with
      | error err =>
        rw [hread] at h
        cases h
      | ok e' =>
        rw [hread] at h
        cases h
        have hsame := LeaderElectedEvent.unmarshal_base hread
        rw [hbase] at hsame
        cases hsame
        exact ⟨hleader, rfl, BaseEvent.isRead_of_unmarshal hbase⟩

theorem LifecycleEvent.marshal_error {e : LifecycleEvent} (h : hasText e.base.timeStamp = false) :
    ∃ err, e.marshal = .error err := by
  cases e with
  | taskStateChange e =>
    have hgives := e.marshal_givesIf
    rwa [show hasText e.timeStamp = false from h] at hgives
  | leaderElected e =>
    have hgives := e.marshal_givesIf
    rwa [show hasText e.timeStamp = false from h] at hgives

/-- For any bytes, the type that is returned is the one the returned event has and belongs to its
kind. The event can be sent on and is then parsed as the same, unless its time has an offset of
a day or more. -/
theorem parsed_events_have_their_type {event : Bytes} {e : LifecycleEvent} {kind : String}
    (h : parseEventJSON event = .ok (e, kind)) :
    e.base.eventType = kind ∧ e.kind = kind ∧
      match e.marshal with
      | .error _ => withinDay e.base.timeStamp = false
      | .ok bytes => withinDay e.base.timeStamp = true ∧ parseEventJSON bytes = .ok (e, kind) := by
  obtain ⟨rfl, htype, hread⟩ := parseEventJSON_ok h
  refine ⟨htype, rfl, ?_⟩
  have htext := hasText_of_isRead hread
  cases hday : withinDay e.base.timeStamp with
  | false =>
    obtain ⟨err, herr⟩ := LifecycleEvent.marshal_error (htext.trans hday)
    rw [herr]
  | true =>
    obtain ⟨bytes, hbytes, hparse⟩ :=
      parseEventJSON_marshal htype (htext.trans hday) hread.wholeMinutes
    rw [hbytes]
    exact ⟨rfl, hparse⟩

theorem parsed_events_have_their_type_mixed_case :
    ∃ e bytes, parseEventJSON (document (.object [("TYPE", .string leaderElectedEventType),
        ("Name", .string "host"), ("other", .array [])])) = .ok (e, leaderElectedEventType) ∧
      e.kind = leaderElectedEventType ∧ e.marshal = .ok bytes ∧
      parseEventJSON bytes = .ok (e, leaderElectedEventType) := by
  have hread : parseEventJSON (document (.object [("TYPE", .string leaderElectedEventType),
      ("Name", .string "host"), ("other", .array [])])) =
      .ok (.leaderElected { LeaderElectedEvent.zero with
        eventType := leaderElectedEventType, name := "host" }, leaderElectedEventType) := by
    simp only [parseEventJSON, unmarshalEvent, scan_document]
    rfl
  obtain ⟨-, hkind, hsent⟩ := parsed_events_have_their_type hread
  split at hsent
  · exact absurd hsent (by decide)
  · rename_i bytes hbytes
    exact ⟨_, bytes, hread, hkind, hbytes, hsent.2⟩

end AsyncJobs
