import PlatformGuard.Proofs.JsonReading

/-!
# Positions and symbols that are written and read back

Each record comes with three facts. What is written fills the fields of its shape in their order, so
all of it is taken in; it fits the shape; and the reader finds every field again, also those that
were left out for saying nothing.

A table of symbols is written as the list of its symbols. Its indices are built anew
(`SymbolTable.ofJson_toJson`).
-/

namespace PlatformGuard

open Json Shape

/-! ## Positions -/

namespace Position

theorem fills (p : Position) : Fills form.shape.fields p.toJson.record.fields :=
  .field (fits_natural p.line.toNat_lt_size) (.field (fits_natural p.column.toNat_lt_size)
    (.field (fits_natural p.offset.toNat_lt_size) .nil))

theorem fits (p : Position) : form.shape.Fits p.toJson :=
  fits_record p.fills (by decide)

theorem ofJson_toJson (p : Position) : ofJson p.toJson = .ok p := by
  have fields : readRecord ["line", "column", "offset"] p.toJson = .ok p.toJson.record :=
    p.fills.readRecord (by decide)
  have line : p.toJson.record.required "line" readUInt64 = .ok p.line :=
    Record.required_ok rfl (readUInt64_toNat _)
  have column : p.toJson.record.required "column" readUInt64 = .ok p.column :=
    Record.required_ok rfl (readUInt64_toNat _)
  have offset : p.toJson.record.withDefault "offset" 0 readUInt64 = .ok p.offset :=
    Record.withDefault_ok rfl (readUInt64_toNat _)
  rw [ofJson, fields]
  simp only [ok_bind, line, column, offset]
  rfl

end Position

namespace Span

theorem fills (s : Span) : Fills form.shape.fields s.toJson.record.fields :=
  .field s.start.fits (.field s.stop.fits .nil)

theorem fits (s : Span) : form.shape.Fits s.toJson :=
  fits_record s.fills (by decide)

theorem ofJson_toJson (s : Span) : ofJson s.toJson = .ok s := by
  have fields : readRecord ["start", "end"] s.toJson = .ok s.toJson.record :=
    s.fills.readRecord (by decide)
  have start : s.toJson.record.required "start" Position.ofJson = .ok s.start :=
    Record.required_ok rfl s.start.ofJson_toJson
  have stop : s.toJson.record.required "end" Position.ofJson = .ok s.stop :=
    Record.required_ok rfl s.stop.ofJson_toJson
  rw [ofJson, fields]
  simp only [ok_bind, start, stop]
  rfl

end Span

namespace SymbolId

theorem fits (id : SymbolId) : form.shape.Fits id.toJson :=
  fits_natural id.val.toNat_lt_size

theorem ofJson_toJson (id : SymbolId) : ofJson id.toJson = .ok id := by
  rw [ofJson, toJson, readUInt32_toNat]
  rfl

theorem toJson_ne_null (id : SymbolId) : id.toJson ≠ .null := nofun

end SymbolId

/-! ## Names -/

theorem text_ne_null (s : String) : Json.text s ≠ .null := nofun

theorem mem_of_tagged {α : Type} {names : List (String × α)} {name : String} {a : α}
    (h : Json.tagged names name = .ok a) : name ∈ names.map (·.1) := by
  unfold Json.tagged at h
  split at h
  case h_1 n hfind =>
    have same : n.1 = name := by simpa using List.find?_some hfind
    exact same ▸ List.mem_map_of_mem (List.mem_of_find?_eq_some hfind)
  case h_2 => cases h

theorem AttributeKind.tagged_name (k : AttributeKind) : Json.tagged names k.name = .ok k := by
  cases k <;> rfl

theorem SymbolKind.tagged_name (k : SymbolKind) : Json.tagged names k.name = .ok k := by
  cases k <;> rfl

/-! ## Attributes -/

namespace PlatformAttribute

theorem fills (a : PlatformAttribute) : Fills form.shape.fields a.toJson.record.fields := by
  simp only [toJson, record_object, List.append_assoc, List.cons_append, List.nil_append]
  exact .field (fits_name (mem_of_tagged a.kind.tagged_name)) (.field (fits_text a.platform)
    (.field? fits_text text_ne_null (.field? fits_text text_ne_null (.field a.span.fits .nil))))

theorem fits (a : PlatformAttribute) : form.shape.Fits a.toJson :=
  fits_record a.fills (by decide)

theorem ofJson_toJson (a : PlatformAttribute) : ofJson a.toJson = .ok a := by
  have fields : readRecord ["kind", "platform", "message", "url", "span"] a.toJson =
      .ok a.toJson.record :=
    a.fills.readRecord (by decide)
  have kind : a.toJson.record.required "kind" (readTag .direct AttributeKind.names) = .ok a.kind :=
    Record.required_ok rfl a.kind.tagged_name
  have platform : a.toJson.record.required "platform" readText = .ok a.platform :=
    Record.required_ok rfl rfl
  have message : a.toJson.record.optional "message" readText = .ok a.message :=
    Record.optional_ok .text (by simp [toJson]) (fun _ => rfl) text_ne_null
  have url : a.toJson.record.optional "url" readText = .ok a.url :=
    Record.optional_ok .text (by simp [toJson]) (fun _ => rfl) text_ne_null
  have span : a.toJson.record.withDefault "span" {} Span.ofJson = .ok a.span :=
    Record.withDefault_ok (by simp [toJson]) a.span.ofJson_toJson
  rw [ofJson, fields]
  simp only [ok_bind, kind, platform, message, url, span]
  rfl

end PlatformAttribute

/-! ## Symbols -/

namespace Symbol

theorem fills (s : Symbol) : Fills form.shape.fields s.toJson.record.fields := by
  simp only [toJson, record_object, List.append_assoc, List.cons_append, List.nil_append]
  rw [← List.append_nil (field? "file" _ _)]
  exact .field s.id.fits
    (.field (fits_text s.name) (.field (fits_name (mem_of_tagged s.kind.tagged_name))
    (.field? SymbolId.fits SymbolId.toJson_ne_null (.field? SymbolId.fits SymbolId.toJson_ne_null
      (.listField SymbolId.fits
        (.listField PlatformAttribute.fits (.field? fits_text text_ne_null .nil)))))))

theorem fits (s : Symbol) : form.shape.Fits s.toJson :=
  fits_record s.fills (by decide)

theorem ofJson_toJson (s : Symbol) : ofJson s.toJson = .ok s := by
  have fields : readRecord
    ["id", "name", "kind", "containing", "associated", "implements", "attributes", "file"]
      s.toJson = .ok s.toJson.record := s.fills.readRecord (by decide)
  have id : s.toJson.record.required "id" SymbolId.ofJson = .ok s.id :=
    Record.required_ok rfl s.id.ofJson_toJson
  have name : s.toJson.record.required "name" readText = .ok s.name := Record.required_ok rfl rfl
  have kind : s.toJson.record.required "kind" (readTag .direct SymbolKind.names) = .ok s.kind :=
    Record.required_ok rfl s.kind.tagged_name
  have containing : s.toJson.record.optional "containing" SymbolId.ofJson = .ok s.containing :=
    Record.optional_ok SymbolId.toJson
      (by simp [toJson]) SymbolId.ofJson_toJson SymbolId.toJson_ne_null
  have associated : s.toJson.record.optional "associated" SymbolId.ofJson = .ok s.associated :=
    Record.optional_ok SymbolId.toJson
      (by simp [toJson]) SymbolId.ofJson_toJson SymbolId.toJson_ne_null
  have implements : s.toJson.record.withDefault "implements" [] (readList SymbolId.ofJson) =
      .ok s.implements :=
    Record.listField_ok SymbolId.toJson (by simp [toJson]) fun id _ => id.ofJson_toJson
  have attributes : s.toJson.record.withDefault "attributes" []
      (readList PlatformAttribute.ofJson) = .ok s.attributes :=
    Record.listField_ok PlatformAttribute.toJson (by simp [toJson]) fun a _ => a.ofJson_toJson
  have file : s.toJson.record.optional "file" readText = .ok s.file :=
    Record.optional_ok .text (by simp [toJson]) (fun _ => rfl) text_ne_null
  rw [ofJson, fields]
  simp only [ok_bind, id, name, kind, containing, associated, implements, attributes, file]
  rfl

end Symbol

namespace SymbolTable

theorem fits (t : SymbolTable) : form.shape.Fits t.toJson := by
  refine fits_list fun v hv => ?_
  obtain ⟨s, -, rfl⟩ := List.mem_map.1 hv
  exact s.fits

/-- A table is read from its symbols alone. -/
theorem ofJson_toJson (t : SymbolTable) : ofJson t.toJson = .ok (ofSymbols t.toList) := by
  rw [ofJson, toJson, readList_list fun s _ => s.ofJson_toJson]
  rfl

end SymbolTable

end PlatformGuard
