import LiveTest.Params

/-!
# What `custom_instance_params` reads, and how it fails

The other direction of `Params`: every string that is read has, for each of the
eight names, an item that is the last one with this name and gives the value in
the text of the field. Every other string makes the thread panic, at the first
name for which there is no item or a text that is no value.

* `customInstanceParams_iff`: both, exactly.
-/

namespace LiveTest

open Rust

/-! ## Items -/

/-- The item is `name=value`; what stands behind a second `=` is not read. -/
def Gives (item name value : Text) : Prop :=
  '=' ∉ name ∧ '=' ∉ value ∧
    (item = name ++ '=' :: value ∨ ∃ rest, item = name ++ '=' :: (value ++ '=' :: rest))

theorem readItem_eq_some {item name value : Text} :
    readItem item = some (name, value) ↔ Gives item name value := by
  constructor
  · intro h
    by_cases hmem : '=' ∈ item
    · obtain ⟨name', rest, rfl, hname⟩ := List.eq_append_cons_of_mem hmem
      rw [readItem, List.splitOn_append_cons_self_of_not_mem hname] at h
      by_cases hrest : '=' ∈ rest
      · obtain ⟨value', rest', rfl, hvalue⟩ := List.eq_append_cons_of_mem hrest
        rw [List.splitOn_append_cons_self_of_not_mem hvalue] at h
        cases h
        exact ⟨hname, hvalue, .inr ⟨rest', rfl⟩⟩
      · rw [List.splitOn_eq_singleton hrest] at h
        cases h
        exact ⟨hname, hrest, .inl rfl⟩
    · rw [readItem_of_not_mem hmem] at h
      cases h
  · rintro ⟨hname, hvalue, rfl | ⟨rest, rfl⟩⟩
    · exact readItem_eq hname hvalue
    · rw [readItem, List.splitOn_append_cons_self_of_not_mem hname,
        List.splitOn_append_cons_self_of_not_mem hvalue]

/-- The last item that gives the name a value gives it this one. -/
def LastValue (params name value : Text) : Prop :=
  ∃ before item after, params.splitOn '|' = before ++ item :: after ∧ Gives item name value ∧
    ∀ later ∈ after, ∀ other, ¬ Gives later name other

/-- No item gives the name a value. -/
def Absent (params name : Text) : Prop :=
  ∀ item ∈ params.splitOn '|', ∀ value, ¬ Gives item name value

theorem forall_readItem {items : List Text} {name : Text} :
    (∀ e ∈ items.filterMap readItem, e.1 ≠ name) ↔
      ∀ item ∈ items, ∀ value, ¬ Gives item name value := by
  constructor
  · intro h item hitem value hgives
    exact h (name, value) (List.mem_filterMap.mpr ⟨item, hitem, readItem_eq_some.mpr hgives⟩) rfl
  · rintro h ⟨name', value⟩ he rfl
    obtain ⟨item, hitem, hread⟩ := List.mem_filterMap.mp he
    exact h item hitem value (readItem_eq_some.mp hread)

theorem readTable_eq_some {params name value : Text} :
    readTable params name = some value ↔ LastValue params name value := by
  rw [readTable_eq, tableInsertAll_eq_some]
  constructor
  · rintro ⟨before, after, hsplit, hafter⟩
    obtain ⟨items, rest, hitems, rfl, hrest⟩ := List.filterMap_eq_append_iff.mp hsplit
    obtain ⟨skipped, item, later, rfl, hskipped, hitem, rfl⟩ := List.filterMap_eq_cons_iff.mp hrest
    refine ⟨items ++ skipped, item, later, by rw [hitems, List.append_assoc],
      readItem_eq_some.mp hitem, forall_readItem.mp hafter⟩
  · rintro ⟨before, item, after, hsplit, hgives, hafter⟩
    refine ⟨before.filterMap readItem, after.filterMap readItem, ?_, forall_readItem.mpr hafter⟩
    rw [hsplit, List.filterMap_append, List.filterMap_cons_some (readItem_eq_some.mpr hgives)]

theorem readTable_eq_none {params name : Text} :
    readTable params name = none ↔ Absent params name := by
  rw [readTable_eq, tableInsertAll_eq_none, forall_readItem]
  rfl

/-! ## Entries -/

/-- The types of the fields. -/
inductive FieldType where
  | bool
  | usize
  deriving DecidableEq

/-- The value of a field. -/
inductive Field where
  | bool (b : Bool)
  | usize (n : UInt64)
  deriving DecidableEq

/-- Its type. -/
def Field.type : Field → FieldType
  | .bool _ => .bool
  | .usize _ => .usize

/-- The text is the value. -/
def Field.WrittenAs : Field → Text → Prop
  | .bool b, text => text = boolText b
  | .usize n, text => WritesNat text n.toNat

/-- The message of the `expect` on `parse`. -/
def FieldType.message : FieldType → String
  | .bool => "Boolean Parsing"
  | .usize => "Integer Parsing"

/-- The entry that `custom_instance_params` reads for a field. -/
def readField (table : Text → Option Text) (field : String × FieldType) : Except Panic Field :=
  match field.2 with
  | .bool => Field.bool <$> parseBoolEntry table field.1
  | .usize => Field.usize <$> parseUsizeEntry table field.1

/-- How the entry of a field makes the thread panic. -/
inductive Fails (params : Text) (field : String × FieldType) : Panic → Prop where
  | missing (absent : Absent params field.1.toList) :
      Fails params field (.expect "no entry found for key")
  | malformed {text : Text} (last : LastValue params field.1.toList text)
      (none : ∀ value : Field, value.type = field.2 → ¬ value.WrittenAs text) :
      Fails params field (.expect field.2.message)

/-- `table[name].parse().expect(msg)` reads the text of the name, or says why not. -/
theorem parseEntry_eq_ok {α : Type} {table : Text → Option Text} {parse : Text → Option α}
    {msg name : String} {value : α} : parseEntry table parse msg name = .ok value ↔
      ∃ text, table name.toList = some text ∧ parse text = some value := by
  unfold parseEntry tableIndex
  cases htable : table name.toList with
  | none => simp
  | some text => cases hparse : parse text <;> simp [hparse]

theorem parseEntry_eq_error {α : Type} {table : Text → Option Text} {parse : Text → Option α}
    {msg name : String} {e : Panic} : parseEntry table parse msg name = .error e ↔
      table name.toList = none ∧ e = .expect "no entry found for key" ∨
        ∃ text, table name.toList = some text ∧ parse text = none ∧ e = .expect msg := by
  unfold parseEntry tableIndex
  cases htable : table name.toList with
  | none => simp [eq_comm]
  | some text => cases hparse : parse text <;> simp [hparse, eq_comm]

theorem parseBoolEntry_eq_ok {params : Text} {name : String} {b : Bool} :
    parseBoolEntry (readTable params) name = .ok b ↔
      ∃ text, LastValue params name.toList text ∧ (Field.bool b).WrittenAs text := by
  simp only [parseBoolEntry, parseEntry_eq_ok, readTable_eq_some, parseBool_eq_some,
    Field.WrittenAs]

theorem parseUsizeEntry_eq_ok {params : Text} {name : String} {n : UInt64} :
    parseUsizeEntry (readTable params) name = .ok n ↔
      ∃ text, LastValue params name.toList text ∧ (Field.usize n).WrittenAs text := by
  simp only [parseUsizeEntry, parseEntry_eq_ok, readTable_eq_some, parseUsize_eq_some,
    Field.WrittenAs]

theorem map_eq_ok {α β : Type} {f : α → β} {x : Except Panic α} {b : β} :
    f <$> x = .ok b ↔ ∃ a, x = .ok a ∧ f a = b := by
  cases x <;> simp [Functor.map, Except.map]

theorem map_eq_error {α β : Type} {f : α → β} {x : Except Panic α} {e : Panic} :
    f <$> x = .error e ↔ x = .error e := by
  cases x <;> simp [Functor.map, Except.map]

theorem readField_eq_ok {params : Text} {field : String × FieldType} {value : Field} :
    readField (readTable params) field = .ok value ↔
      value.type = field.2 ∧
        ∃ text, LastValue params field.1.toList text ∧ value.WrittenAs text := by
  obtain ⟨name, type⟩ := field
  cases type with
  | bool =>
    simp only [readField, map_eq_ok, parseBoolEntry_eq_ok]
    constructor
    · rintro ⟨b, htext, rfl⟩
      exact ⟨rfl, htext⟩
    · rintro ⟨htype, htext⟩
      cases value with
      | bool b => exact ⟨b, htext, rfl⟩
      | usize n => cases htype
  | usize =>
    simp only [readField, map_eq_ok, parseUsizeEntry_eq_ok]
    constructor
    · rintro ⟨n, htext, rfl⟩
      exact ⟨rfl, htext⟩
    · rintro ⟨htype, htext⟩
      cases value with
      | bool b => cases htype
      | usize n => exact ⟨n, htext, rfl⟩

/-- Of the texts, those that no value of the type is written as are the ones that do not parse. -/
theorem not_written_iff {type : FieldType} {text : Text} :
    (∀ value : Field, value.type = type → ¬ value.WrittenAs text) ↔
      match type with
      | .bool => parseBool text = none
      | .usize => parseUsize text = none := by
  cases type with
  | bool =>
    simp only [Option.eq_none_iff_forall_ne_some, ne_eq, parseBool_eq_some]
    constructor
    · exact fun h b => h (.bool b) rfl
    · intro h value hvalue
      cases value with
      | bool b => exact h b
      | usize n => cases hvalue
  | usize =>
    simp only [Option.eq_none_iff_forall_ne_some, ne_eq, parseUsize_eq_some]
    constructor
    · exact fun h n => h (.usize n) rfl
    · intro h value hvalue
      cases value with
      | bool b => cases hvalue
      | usize n => exact h n

theorem readField_eq_error {params : Text} {field : String × FieldType} {e : Panic} :
    readField (readTable params) field = .error e ↔ Fails params field e := by
  have hfails : Fails params field e ↔
      readTable params field.1.toList = none ∧ e = .expect "no entry found for key" ∨
        ∃ text, readTable params field.1.toList = some text ∧
          (∀ value : Field, value.type = field.2 → ¬ value.WrittenAs text) ∧
          e = .expect field.2.message := by
    simp only [readTable_eq_none, readTable_eq_some]
    constructor
    · rintro (absent | ⟨last, none⟩)
      · exact .inl ⟨absent, rfl⟩
      · exact .inr ⟨_, last, none, rfl⟩
    · rintro (⟨absent, rfl⟩ | ⟨text, last, none, rfl⟩)
      · exact .missing absent
      · exact .malformed last none
  obtain ⟨name, type⟩ := field
  rw [hfails]
  cases type with
  | bool =>
    simp only [not_written_iff, readField, map_eq_error, parseBoolEntry, parseEntry_eq_error]
    rfl
  | usize =>
    simp only [not_written_iff, readField, map_eq_error, parseUsizeEntry, parseEntry_eq_error]
    rfl

/-! ## The parameters -/

namespace TestCaseParams

/-- The fields by name, in the order in which they are read. -/
def fields (p : TestCaseParams) : List (String × Field) :=
  [("log", .bool p.log), ("log_id", .usize p.logId),
    ("max_concurrent_send", .usize p.maxConcurrentSend),
    ("max_size_block", .bool p.maxSizeBlock), ("segment_length", .usize p.segmentLength),
    ("sim_time", .usize p.simTime), ("video_bitrate", .usize p.videoBitrate),
    ("network_bandwidth", .usize p.networkBandwidth)]

/-- Their types. -/
def fieldTypes : List (String × FieldType) :=
  [("log", .bool), ("log_id", .usize), ("max_concurrent_send", .usize), ("max_size_block", .bool),
    ("segment_length", .usize), ("sim_time", .usize), ("video_bitrate", .usize),
    ("network_bandwidth", .usize)]

end TestCaseParams

theorem error_congr {α β : Type} {e e' : Panic} :
    (.error e' : Except Panic α) = .error e ↔ (.error e' : Except Panic β) = .error e := by
  simp only [Except.error.injEq]

/-- `custom_instance_params` fails as the first entry does that cannot be read. -/
theorem customInstanceParams_eq_error {params : Text} {e : Panic} :
    customInstanceParams params = .error e ↔
      TestCaseParams.fieldTypes.mapM (readField (readTable params)) = .error e := by
  unfold customInstanceParams
  simp only [TestCaseParams.fieldTypes, List.mapM_cons, List.mapM_nil, readField]
  cases parseBoolEntry (readTable params) "log" with
  | error e' => exact error_congr
  | ok log =>
  cases parseUsizeEntry (readTable params) "log_id" with
  | error e' => exact error_congr
  | ok logId =>
  cases parseUsizeEntry (readTable params) "max_concurrent_send" with
  | error e' => exact error_congr
  | ok maxConcurrentSend =>
  cases parseBoolEntry (readTable params) "max_size_block" with
  | error e' => exact error_congr
  | ok maxSizeBlock =>
  cases parseUsizeEntry (readTable params) "segment_length" with
  | error e' => exact error_congr
  | ok segmentLength =>
  cases parseUsizeEntry (readTable params) "sim_time" with
  | error e' => exact error_congr
  | ok simTime =>
  cases parseUsizeEntry (readTable params) "video_bitrate" with
  | error e' => exact error_congr
  | ok videoBitrate =>
  cases parseUsizeEntry (readTable params) "network_bandwidth" with
  | error e' => exact error_congr
  | ok networkBandwidth => exact iff_of_false (fun h => nomatch h) fun h => nomatch h

theorem customInstanceParams_eq_ok {params : Text} {p : TestCaseParams} :
    customInstanceParams params = .ok p ↔ ∀ field ∈ p.fields,
      ∃ text, LastValue params field.1.toList text ∧ field.2.WrittenAs text := by
  simp only [customInstanceParams, bind_eq_ok, pure_eq_ok, TestCaseParams.fields,
    List.forall_mem_cons, ← parseBoolEntry_eq_ok, ← parseUsizeEntry_eq_ok]
  constructor
  · rintro ⟨_, hlog, _, hlogId, _, hsend, _, hsize, _, hlength, _, htime, _, hbitrate, _,
      hbandwidth, ⟨⟩⟩
    exact ⟨hlog, hlogId, hsend, hsize, hlength, htime, hbitrate, hbandwidth, by simp⟩
  · rintro ⟨hlog, hlogId, hsend, hsize, hlength, htime, hbitrate, hbandwidth, -⟩
    exact ⟨_, hlog, _, hlogId, _, hsend, _, hsize, _, hlength, _, htime, _, hbitrate, _,
      hbandwidth, rfl⟩

/-- What is read, for every string: a value for each field, from the last item with its name, or the
    panic of the first field that has none. -/
theorem customInstanceParams_iff (params : Text) :
    (∀ p, customInstanceParams params = .ok p ↔ ∀ field ∈ p.fields,
      ∃ text, LastValue params field.1.toList text ∧ field.2.WrittenAs text) ∧
    ∀ e, customInstanceParams params = .error e ↔
      ∃ before field after, TestCaseParams.fieldTypes = before ++ field :: after ∧
        (∀ earlier ∈ before, ∃ value : Field, value.type = earlier.2 ∧
          ∃ text, LastValue params earlier.1.toList text ∧ value.WrittenAs text) ∧
        Fails params field e := by
  refine ⟨fun p => customInstanceParams_eq_ok, fun e => ?_⟩
  simp only [customInstanceParams_eq_error, mapM_eq_error, readField_eq_ok, readField_eq_error]

/-- A bad value behind a good one for the same name, before a name that is missing. -/
example : customInstanceParams
    "log=true|log_id=+07|max_concurrent_send=4|max_size_block=true|max_size_block=True".toList =
      .error (.expect "Boolean Parsing") := by decide +kernel

end LiveTest
