import Mathlib
import WorkQueue.Job.Event
import WorkQueue.Job.Record
import WorkQueue.Proofs.Instant.Text
import WorkQueue.Proofs.Json.Record
import WorkQueue.Proofs.Message.Headers
import WorkQueue.Proofs.Uuid

/-! # Messages, jobs and events read back from JSON

Each part of a record is written and read by itself, and the record is put together from its parts.
The numbers of a message have to fit into their words.
-/

namespace WorkQueue

open Json

theorem Instant.faithful (t : Instant) : Faithful Instant.toJson Instant.ofJson? t :=
  .ofText t.ofText?_text

theorem Bytes.faithful (b : Bytes) : Faithful Bytes.toJson Bytes.ofJson? b where
  plain := b.plain_toJson
  filled := by simp [Bytes.toJson, list]
  reads := b.ofJson?_toJson

theorem MessageId.faithful (id : MessageId) : Faithful MessageId.toJson MessageId.ofJson? id :=
  .ofText id.ofText?_text

theorem Owner.faithful (o : Owner) : Faithful Owner.toJson Owner.ofJson? o where
  plain := rfl
  filled := by simp [Owner.toJson, text]
  reads := rfl

theorem Headers.faithful (h : Headers) : Faithful Headers.toJson Headers.ofJson? h where
  plain := h.plain_toJson
  filled := by simp [Headers.toJson, list]
  reads := h.ofJson?_toJson

theorem Status.faithful (s : Status) : Faithful Status.toJson Status.ofJson? s where
  plain := rfl
  filled := by simp [Status.toJson, Json.text]
  reads := by cases s <;> decide

theorem JobSlotKey.faithful (k : JobSlotKey) : Faithful JobSlotKey.toJson JobSlotKey.ofJson? k where
  plain := rfl
  filled := by simp [JobSlotKey.toJson, record]
  reads := by
    have hfields : k.toJson.fields? ["name", "slot"] = _ :=
      fields?_record (by decide : ["name", "slot"].Nodup)
    rw [JobSlotKey.ofJson?, hfields]
    apply read_next rfl
    apply read_next (text_faithful _).required
    exact read_next (Instant.faithful _).required rfl

theorem Duration.carry?_parts (d : Duration) : carry? d.seconds.toNat d.nanos = some d := by
  have hseconds : d.seconds.toNat < UInt64.size := d.seconds.toNat_lt
  have hnanos := d.nanos_lt
  have hdiv : d.nanos / nanosPerSecond = 0 := Nat.div_eq_of_lt hnanos
  simp [carry?, hdiv, hseconds, Nat.mod_eq_of_lt hnanos]

theorem Duration.faithful (d : Duration) : Faithful Duration.toJson Duration.ofJson? d where
  plain := rfl
  filled := by simp [Duration.toJson, record]
  reads := by
    have hfields : d.toJson.fields? ["secs", "nanos"] = _ :=
      fields?_record (by decide : ["secs", "nanos"].Nodup)
    have hseconds : d.seconds.toNat ≤ UInt64.size - 1 := Nat.le_pred_of_lt d.seconds.toNat_lt
    have hnanos : d.nanos ≤ UInt32.size - 1 := by
      have := d.nanos_lt
      simp only [nanosPerSecond, UInt32.size] at *
      omega
    unfold Duration.ofJson?
    rw [hfields]
    apply read_next rfl
    apply read_next (nat_faithful hseconds).required
    apply read_next (nat_faithful hnanos).required
    exact d.carry?_parts

theorem Message.priority_faithful (p : Int32) :
    Faithful (fun p : Int32 => .integer p.toInt) Message.priorityOfJson? p where
  plain := rfl
  filled := by simp
  reads := by
    have hbounds : -2147483648 ≤ p.toInt ∧ p.toInt ≤ 2147483647 :=
      ⟨p.le_toInt, Int.le_of_lt_add_one p.toInt_lt⟩
    simp [Message.priorityOfJson?, intWithin?_integer hbounds]

theorem Message.faithful {m : Message} (hretries : m.retryCount < UInt32.size)
    (hsequence : m.sequence < UInt64.size) : Faithful Message.toJson Message.ofJson? m where
  plain := by
    apply plain_record
    simp only [List.forall_mem_cons, (MessageId.faithful _).plain, (Bytes.faithful _).plain,
      (Headers.faithful _).plain, (Status.faithful _).plain, (bool_faithful _).plain,
      (nat_faithful (le_refl _)).plain, (Instant.faithful _).plain,
      Faithful.plain_ofOption text_faithful, Faithful.plain_ofOption Message.priority_faithful,
      Faithful.plain_ofOption Instant.faithful, Faithful.plain_ofOption Owner.faithful,
      Faithful.plain_ofOption JobSlotKey.faithful]
    simp
  filled := by simp [Message.toJson, record]
  reads := by
    have hfields : m.toJson.fields? Message.fieldNames = _ :=
      fields?_record (by decide : Message.fieldNames.Nodup)
    rw [Message.ofJson?, hfields]
    apply read_next rfl
    apply read_next (MessageId.faithful _).required
    apply read_next (Bytes.faithful _).required
    apply read_next (Headers.faithful _).required
    apply read_next (Status.faithful _).required
    apply read_next (Faithful.nullable text_faithful _)
    apply read_next (Faithful.nullable Message.priority_faithful _)
    apply read_next (Faithful.nullable Instant.faithful _)
    apply read_next (Faithful.nullable Instant.faithful _)
    apply read_next (Faithful.nullable Instant.faithful _)
    apply read_next (Faithful.nullable Owner.faithful _)
    apply read_next (nat_faithful (Nat.le_pred_of_lt hretries)).required
    apply read_next (bool_faithful _).required
    apply read_next (Faithful.nullable JobSlotKey.faithful _)
    apply read_next (nat_faithful (Nat.le_pred_of_lt hsequence)).required
    exact read_next (Instant.faithful _).required rfl

theorem JobRecord.faithful (j : JobRecord) : Faithful JobRecord.toJson JobRecord.ofJson? j where
  plain := by
    apply plain_record
    simp only [List.forall_mem_cons, (text_faithful _).plain, (bool_faithful _).plain,
      (Instant.faithful _).plain, Faithful.plain_ofOption Instant.faithful,
      Faithful.plain_ofOption Duration.faithful]
    simp
  filled := by simp [JobRecord.toJson, record]
  reads := by
    have hfields : j.toJson.fields? JobRecord.fieldNames = _ :=
      fields?_record (by decide : JobRecord.fieldNames.Nodup)
    rw [JobRecord.ofJson?, hfields]
    apply read_next rfl
    apply read_next (text_faithful _).required
    apply read_next (text_faithful _).required
    apply read_next (Faithful.nullable Instant.faithful _)
    apply read_next (Faithful.nullable Duration.faithful _)
    apply read_next (bool_faithful _).required
    apply read_next (Instant.faithful _).required
    exact read_next (bool_faithful _).required rfl

/-! ## Events -/

namespace Event

variable {members : List (String × Json)}

theorem ofJson?_tagged (tag : String) (htexts : ∀ m ∈ members, ∃ s, m.2 = .text s)
    (hnames : ("type" :: members.map (·.1)).Nodup) :
    ofJson? (record (("type", .text tag) :: members)) = ofTagged? tag (record members) := by
  have htagged : ∀ m ∈ ("type", Json.text tag) :: members, ∃ s, m.2 = .text s :=
    List.forall_mem_cons.mpr ⟨⟨tag, rfl⟩, htexts⟩
  obtain ⟨hdepth, hfinite, hspelled⟩ := record_texts htagged
  have hall : ((("type", Json.text tag) :: members).map (·.1)).Nodup := hnames
  have htag := single?_record hall List.mem_cons_self
  have hother : ∀ m ∈ members, m.1 ≠ "type" := fun m hm heq =>
    (List.nodup_cons.mp hnames).1 (List.mem_map.mpr ⟨m, hm, heq⟩)
  have hbody := filter_other hother
  simp only [ofJson?, hdepth, hfinite, hspelled]
  simp only [record, List.map_cons] at htag ⊢
  rw [List.filter_cons_of_neg (by simp), hbody]
  simp only [htag, Option.bind_eq_bind, Option.bind_some]
  rfl

theorem faithful (e : Event) : Faithful toJson ofJson? e where
  plain := by
    cases e <;> rfl
  filled := by cases e <;> simp [toJson, record]
  reads := by
    cases e with
    | queued job slot message =>
        have hfields : (record [("job", .text job), ("slot", slot.toJson),
            ("message_id", message.toJson)]).fields? ["job", "slot", "message_id"] = _ :=
          fields?_record (by decide : ["job", "slot", "message_id"].Nodup)
        rw [toJson, ofJson?_tagged _ (by simp [Instant.toJson, MessageId.toJson]) (by simp),
          ofTagged?, if_pos rfl]
        apply read_next hfields
        apply read_next (text_faithful _).required
        apply read_next (Instant.faithful _).required
        exact read_next (MessageId.faithful _).required rfl
    | exception job error =>
        have hfields : (record [("job", .text job), ("error", .text error)]).fields?
            ["job", "error"] = _ := fields?_record (by decide : ["job", "error"].Nodup)
        rw [toJson, ofJson?_tagged _ (by simp) (by simp), ofTagged?, if_neg (by simp), if_pos rfl]
        apply read_next hfields
        apply read_next (text_faithful _).required
        exact read_next (text_faithful _).required rfl
    | nonFatal job info =>
        have hfields : (record [("job", .text job), ("info", .text info)]).fields?
            ["job", "info"] = _ := fields?_record (by decide : ["job", "info"].Nodup)
        rw [toJson, ofJson?_tagged _ (by simp) (by simp), ofTagged?, if_neg (by simp),
          if_neg (by simp), if_pos rfl]
        apply read_next hfields
        apply read_next (text_faithful _).required
        exact read_next (text_faithful _).required rfl

end Event

/-- Messages, headers, job records and events read back from the text of their JSON, if the counts
of a message fit into their words. -/
theorem json_reads_back :
    (∀ m : Message, m.retryCount < UInt32.size → m.sequence < UInt64.size →
      (parse? m.toJson.render).bind Message.ofJson? = some m) ∧
    (∀ h : Headers, (parse? h.toJson.render).bind Headers.ofJson? = some h) ∧
    (∀ j : JobRecord, (parse? j.toJson.render).bind JobRecord.ofJson? = some j) ∧
    (∀ e : Event, (parse? e.toJson.render).bind Event.ofJson? = some e) :=
  ⟨fun _ hretries hsequence => (Message.faithful hretries hsequence).parse,
    fun h => h.faithful.parse, fun j => j.faithful.parse, fun e => e.faithful.parse⟩

/-- A message with a leap second of a year before 0, a year of five digits, control
characters in its texts and the greatest counts. -/
theorem json_reads_back_extremes :
    let m : Message :=
      { id := ⟨.ofNat 255⟩
        payload := [0, 127, 255]
        headers := ⟨[("a\"\\b", [1]), ("a\"\\b", []), ("\u0001\n", [2])]⟩
        status := .processing
        route := some "\u001f"
        priority := some (-2147483648)
        visibleAfter := some ⟨-62200000021, 1999999999, by decide⟩
        expiresAt := some ⟨300000000000, 5000, by decide⟩
        lastHeartbeat := some ⟨0, 120000000, by decide⟩
        ownerToken := some ⟨"w/1"⟩
        retryCount := 4294967295
        requeued := true
        job := some ⟨"report", .epoch⟩
        sequence := 18446744073709551615
        enqueuedAt := ⟨1, 1, by decide⟩ }
    (parse? m.toJson.render).bind Message.ofJson? = some m := by
  intro m
  exact json_reads_back.1 m (by decide) (by decide)

end WorkQueue
