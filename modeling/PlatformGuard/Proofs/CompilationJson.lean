import Mathlib
import PlatformGuard.Proofs.OperationTree
import PlatformGuard.Proofs.SymbolJson

/-!
# Compilations that are written and read back

An operation is written as its kind, with the parts of the kind beside the tag, and its span.
Reading asks three things of every value at once, from the leaves up; of a written operation only
one of the answers is wanted. The induction is over the tree: where the children of an operation are
read back (`Operation.Restored`), the parts that it was written with give it back
(`Operation.WrittenAs`, one case for each kind), and so it is read back itself. At the root the tag
is read in another way than below it, so the kind is treated for both ways at once.

`compilation_json_round_trip` puts operations, bodies and symbols together.
-/

namespace PlatformGuard

open Json Shape

/-! ## Constants and operators -/

theorem LocalId.ofJson_toJson (x : LocalId) : ofJson x.toJson = .ok x := by
  rw [ofJson, toJson, readUInt32_toNat]
  rfl

theorem BinaryOperator.tagged_name (o : BinaryOperator) : Json.tagged names o.name = .ok o := by
  cases o <;> rfl

theorem UnaryOperator.tagged_name (o : UnaryOperator) : Json.tagged names o.name = .ok o := by
  cases o <;> rfl

theorem OperationTag.tagged_name (tag : OperationTag) : Json.tagged names tag.name = .ok tag := by
  cases tag <;> rfl

theorem Constant.ofJson_toJson (c : Constant) : ofJson c.toJson = .ok c := by
  cases c with
  | bool b => rfl
  | int n =>
    have held : ofJson (int n).toJson = (readInt64 (.int n.toInt)).map int := rfl
    rw [held, readInt64_toInt]
    rfl
  | string s => rfl
  | null => rfl

namespace Operation

theorem withSpan_span (op : Operation) : op.withSpan op.span = op := by
  cases op <;> rfl

/-! ## Several values at once -/

theorem toJsonAll_eq_map (ops : List Operation) : toJsonAll ops = ops.map toJson := by
  induction ops with
  | nil => rfl
  | cons op rest ih => rw [toJsonAll, ih]; rfl

@[simp] theorem toJsonField_eq (name : String) (op? : Option Operation) :
    toJsonField name op? = field? name toJson op? := by
  cases op? <;> rfl

theorem readings_eq_map (vs : List Json) : readings vs = vs.map reading := by
  induction vs with
  | nil => rfl
  | cons v rest ih => rw [readings, ih]; rfl

theorem readingEntries_eq_map (entries : List (String × Json)) :
    readingEntries entries = entries.map fun e => (e.1, reading e.2) := by
  induction entries with
  | nil => rfl
  | cons e rest ih => rw [readingEntries, ih]; rfl

@[simp] theorem value_reading (v : Json) : (reading v).value = v := by
  cases v <;> rfl

/-! ## Parts -/

/-- Read as an operation, what was written is the operation. -/
def Restored (op : Operation) : Prop := (reading op.toJson).operation = .ok op

def partsRead (parts : List (String × Json)) : Record Reading := ⟨false, readingEntries parts⟩

section Parts

variable {parts : List (String × Json)} {name : String}

theorem find?_partsRead : (partsRead parts).find? name =
    (Record.find? ⟨false, parts⟩ name).map reading := by
  rw [partsRead, readingEntries_eq_map, Record.find?_map]

theorem find?_partsRead_of_find? {v : Json} (h : Record.find? ⟨false, parts⟩ name = some v) :
    (partsRead parts).find? name = some (reading v) := by
  rw [find?_partsRead, h]
  rfl

theorem operation_part {op : Operation} (restored : op.Restored)
    (h : Record.find? ⟨false, parts⟩ name = some op.toJson) :
    (partsRead parts).required name Reading.operation = .ok op :=
  Record.required_ok (find?_partsRead_of_find? h) restored

theorem operation?_part {op? : Option Operation} (restored : ∀ op ∈ op?.toList, op.Restored)
    (h : Record.find? ⟨false, parts⟩ name = op?.map toJson) :
    (partsRead parts).withDefault name none Reading.operation? = .ok op? := by
  cases op? with
  | none =>
    rw [Record.withDefault, find?_partsRead, h]
    rfl
  | some op =>
    have back : (reading op.toJson).operation = .ok op := restored op List.mem_cons_self
    refine Record.withDefault_ok (find?_partsRead_of_find? h) ?_
    rw [Reading.operation?, back, value_reading]
    -- no kind is written as null
    cases op <;> rfl

theorem operations_reading {ops : List Operation} (restored : ∀ op ∈ ops, op.Restored) :
    (reading (.array (toJsonAll ops))).operations = .ok ops := by
  show (readings (toJsonAll ops)).mapM Reading.operation = .ok ops
  rw [readings_eq_map, toJsonAll_eq_map, List.map_map]
  exact mapM_map_ok restored

theorem operations_part {ops : List Operation} (restored : ∀ op ∈ ops, op.Restored)
    (h : Record.find? ⟨false, parts⟩ name = some (.array (toJsonAll ops))) :
    (partsRead parts).required name Reading.operations = .ok ops :=
  Record.required_ok (find?_partsRead_of_find? h) (operations_reading restored)

/-- Operations that could be left out are written all the same. -/
theorem arguments_part {ops : List Operation} (restored : ∀ op ∈ ops, op.Restored)
    (h : Record.find? ⟨false, parts⟩ name = some (.array (toJsonAll ops))) :
    (partsRead parts).withDefault name [] Reading.operations = .ok ops :=
  Record.withDefault_ok (find?_partsRead_of_find? h) (operations_reading restored)

theorem value_part {α : Type} {read : Json → Except JsonError α} {v : Json} {a : α}
    (back : read v = .ok a) (h : Record.find? ⟨false, parts⟩ name = some v) :
    ((partsRead parts).required name fun v => read v.value) = .ok a := by
  refine Record.required_ok (find?_partsRead_of_find? h) ?_
  rw [value_reading, back]

end Parts

theorem readTag_name {α : Type} {names : List (String × α)} {name : String} {a : α}
    (h : Json.tagged names name = .ok a) : readTag .held names (.text name) = .ok a := h

/-! ## Kinds -/

/-- The parts with which an operation is written: they stand in their order, and
give the operation back. -/
structure WrittenAs (op : Operation) (parts : List (String × Json)) : Prop where
  toJson_eq : op.toJson = written op.tag parts op.span
  keys : (parts.map (·.1)).Sublist (partNames op.tag)
  restored : ofParts op.tag (partsRead parts) = .ok fun s => op.withSpan s

theorem keys_toJsonField (name : String) (op? : Option Operation) :
    ((toJsonField name op?).map (·.1)).Sublist [name] := by
  cases op? with
  | none => exact List.nil_sublist _
  | some op => exact .refl _

/-- Where the children are read back, the parts give the operation back. -/
theorem exists_writtenAs_of_children (op : Operation)
    (children : ∀ child ∈ op.children, child.Restored) :
    ∃ parts, op.WrittenAs parts := by
  cases op with
  | block s ops =>
    have children : ∀ op ∈ ops, op.Restored := children
    refine ⟨_, rfl, .refl _, ?_⟩
    simp (disch := simp) only [tag, ofParts, ok_bind, operations_part children]
    rfl
  | conditional s c t e =>
    obtain ⟨hc, others⟩ := List.forall_mem_cons.1 children
    obtain ⟨ht, he⟩ := List.forall_mem_cons.1 others
    refine ⟨_, rfl, .cons_cons _ (.cons_cons _ (keys_toJsonField _ e)), ?_⟩
    simp (disch := simp)
      only [tag, ofParts, ok_bind, operation_part hc, operation_part ht, operation?_part he]
    rfl
  | loop s c b =>
    obtain ⟨hc, hb⟩ := List.forall_mem_append.1 children
    refine ⟨_, rfl, List.map_append ▸ (keys_toJsonField _ c).append (.refl _), ?_⟩
    simp (disch := simp) only [tag, ofParts, ok_bind, operation?_part hc,
      operation_part (List.forall_mem_singleton.1 hb)]
    rfl
  | switch s v cs =>
    obtain ⟨hv, hcs⟩ := List.forall_mem_cons.1 children
    refine ⟨_, rfl, .refl _, ?_⟩
    simp (disch := simp) only [tag, ofParts, ok_bind, operation_part hv, operations_part hcs]
    rfl
  | ret s v | raise s v =>
    refine ⟨_, rfl, keys_toJsonField _ v, ?_⟩
    simp (disch := simp) only [tag, ofParts, ok_bind, operation?_part children]
    rfl
  | breakOut s | continueLoop s => exact ⟨_, rfl, .refl _, rfl⟩
  | invocation s t r as =>
    obtain ⟨hr, has⟩ := List.forall_mem_append.1 children
    refine ⟨_, rfl, .cons_cons _ (List.map_append ▸ (keys_toJsonField _ r).append (.refl _)), ?_⟩
    simp (disch := simp) only [tag, ofParts, ok_bind, value_part t.ofJson_toJson,
      operation?_part hr, arguments_part has]
    rfl
  | delegateInvocation s t as =>
    obtain ⟨ht, has⟩ := List.forall_mem_cons.1 children
    refine ⟨_, rfl, .refl _, ?_⟩
    simp (disch := simp) only [tag, ofParts, ok_bind, operation_part ht, arguments_part has]
    rfl
  | memberReference s m r =>
    refine ⟨_, rfl, .cons_cons _ (keys_toJsonField _ r), ?_⟩
    simp (disch := simp)
      only [tag, ofParts, ok_bind, value_part m.ofJson_toJson, operation?_part children]
    rfl
  | methodReference s m =>
    refine ⟨_, rfl, .refl _, ?_⟩
    simp (disch := simp) only [tag, ofParts, ok_bind, value_part m.ofJson_toJson]
    rfl
  | objectCreation s c as =>
    have children : ∀ op ∈ as, op.Restored := children
    refine ⟨_, rfl, .refl _, ?_⟩
    simp (disch := simp)
      only [tag, ofParts, ok_bind, value_part c.ofJson_toJson, arguments_part children]
    rfl
  | literal s v =>
    refine ⟨_, rfl, .refl _, ?_⟩
    simp (disch := simp) only [tag, ofParts, ok_bind, value_part v.ofJson_toJson]
    rfl
  | localReference s x =>
    refine ⟨_, rfl, .refl _, ?_⟩
    simp (disch := simp) only [tag, ofParts, ok_bind, value_part x.ofJson_toJson]
    rfl
  | localAssignment s x v =>
    refine ⟨_, rfl, .cons_cons _ (keys_toJsonField _ v), ?_⟩
    simp (disch := simp)
      only [tag, ofParts, ok_bind, value_part x.ofJson_toJson, operation?_part children]
    rfl
  | binary s operator l r =>
    obtain ⟨hl, hr⟩ := List.forall_mem_cons.1 children
    refine ⟨_, rfl, .refl _, ?_⟩
    simp (disch := simp)
      only [tag, ofParts, ok_bind, value_part (readTag_name operator.tagged_name),
        operation_part hl,
      operation_part (List.forall_mem_singleton.1 hr)]
    rfl
  | unary s operator e =>
    refine ⟨_, rfl, .refl _, ?_⟩
    simp (disch := simp)
      only [tag, ofParts, ok_bind, value_part (readTag_name operator.tagged_name),
        operation_part (List.forall_mem_singleton.1 children)]
    rfl
  | localFunction s f b =>
    refine ⟨_, rfl, .refl _, ?_⟩
    simp (disch := simp) only [tag, ofParts, ok_bind, value_part f.ofJson_toJson,
      operation_part (List.forall_mem_singleton.1 children)]
    rfl
  | lambda s b =>
    refine ⟨_, rfl, .refl _, ?_⟩
    simp (disch := simp)
      only [tag, ofParts, ok_bind, operation_part (List.forall_mem_singleton.1 children)]
    rfl
  | other s cs =>
    have children : ∀ op ∈ cs, op.Restored := children
    refine ⟨_, rfl, .refl _, ?_⟩
    simp (disch := simp) only [tag, ofParts, ok_bind, arguments_part children]
    rfl

theorem op_not_mem_partNames (tag : OperationTag) : "op" ∉ partNames tag := by
  cases tag <;> decide

theorem partNames_nodup (tag : OperationTag) : (partNames tag).Nodup := by
  cases tag <;> decide

namespace WrittenAs

variable {op : Operation} {parts : List (String × Json)}

theorem ne_op (h : op.WrittenAs parts) : ∀ e ∈ parts, e.1 ≠ "op" := by
  intro e he heq
  exact op_not_mem_partNames op.tag (heq ▸ h.keys.subset (List.mem_map_of_mem he))

/-- The tag is taken out, and the parts stay. -/
theorem splitKind (h : op.WrittenAs parts) (numbered : Bool) :
    splitKind numbered (.named (readingEntries (("op", .text op.tag.name) :: parts))) =
      .ok (op.tag, .named (readingEntries parts)) := by
  have others : ∀ e ∈ readingEntries parts, e.1 ≠ "op" := by
    rw [readingEntries_eq_map]
    intro e he
    obtain ⟨part, hpart, rfl⟩ := List.mem_map.1 he
    exact h.ne_op part hpart
  have tagAlone : (readingEntries parts).filter (fun e => e.1 == "op") = [] := by
    simpa using others
  have rest : (readingEntries parts).filter (fun e => e.1 != "op") = readingEntries parts := by
    simpa using others
  have known : readTagName numbered OperationTag.names
      (reading (.text op.tag.name)).value = .ok op.tag :=
    op.tag.tagged_name
  rw [readingEntries, Operation.splitKind, List.filter_cons_of_pos rfl, tagAlone,
    List.filter_cons_of_neg (by simp), rest]
  dsimp only
  rw [known, ok_bind]
  rfl

/-- The kind is read back, whether or not numbers are taken for tags. -/
theorem kindOf (h : op.WrittenAs parts) (numbered : Bool) :
    kindOf numbered (.named (readingEntries (("op", .text op.tag.name) :: parts))) = .ok fun s =>
    op.withSpan s := by
  have keys : ((readingEntries parts).map (·.1)).Sublist (partNames op.tag) := by
    rw [readingEntries_eq_map, List.map_map]
    exact h.keys
  rw [Operation.kindOf, h.splitKind, ok_bind]
  dsimp only
  rw [Record.ofLayout_named keys (partNames_nodup op.tag), ok_bind]
  exact h.restored

theorem restores (h : op.WrittenAs parts) : op.Restored := by
  have named : ((readingEntries op.toJson.record.fields).map (·.1)).Sublist ["kind", "span"] := by
    rw [h.toJson_eq]
    exact .refl _
  have entries : Record.ofLayout ["kind", "span"]
    (.named (readingEntries op.toJson.record.fields)) =
      .ok (partsRead op.toJson.record.fields) := Record.ofLayout_named named (by decide)
  have kind : (partsRead op.toJson.record.fields).required "kind" Reading.kind = .ok fun s =>
      op.withSpan s := by
    rw [h.toJson_eq]
    exact Record.required_ok rfl (h.kindOf true)
  have span : ((partsRead op.toJson.record.fields).withDefault "span" {} fun v =>
      Span.ofJson v.value) = .ok op.span := by
    rw [h.toJson_eq]
    exact Record.withDefault_ok rfl op.span.ofJson_toJson
  have read : (reading op.toJson).operation =
      operationOf (.named (readingEntries op.toJson.record.fields)) := by
    rw [h.toJson_eq]
    rfl
  rw [Restored, read, operationOf, entries]
  simp only [ok_bind, kind, span]
  rw [withSpan_span]
  rfl

end WrittenAs

/-! ## Operations -/

theorem restored (op : Operation) : op.Restored := by
  induction op using children_induction with
  | step op children =>
    obtain ⟨parts, h⟩ := op.exists_writtenAs_of_children children
    exact h.restores

theorem exists_writtenAs (op : Operation) : ∃ parts, op.WrittenAs parts :=
  op.exists_writtenAs_of_children fun child _ => child.restored

theorem fills (op : Operation) : Fills form.shape.fields op.toJson.record.fields := by
  obtain ⟨parts, h⟩ := op.exists_writtenAs
  rw [h.toJson_eq]
  refine .field (fits_tagged (mem_of_tagged op.tag.tagged_name) h.ne_op ?_)
    (.field op.span.fits .nil)
  show (kindOf false (.named (readingEntries (("op", .text op.tag.name) :: parts)))).isOk = true
  rw [h.kindOf]
  rfl

theorem fits (op : Operation) : form.shape.Fits op.toJson := by
  have fills := op.fills
  obtain ⟨parts, h⟩ := op.exists_writtenAs
  rw [h.toJson_eq] at fills ⊢
  exact fits_record fills (by decide)

theorem ofJson_toJson (op : Operation) : ofJson op.toJson = .ok op := by
  obtain ⟨parts, h⟩ := op.exists_writtenAs
  have fields : readRecord ["kind", "span"] op.toJson = .ok op.toJson.record := by
    have fills := op.fills
    rw [h.toJson_eq] at fills ⊢
    exact fills.readRecord (by decide)
  have kind : op.toJson.record.required "kind" kindOfJson = .ok fun s => op.withSpan s := by
    rw [h.toJson_eq]
    exact Record.required_ok rfl (h.kindOf false)
  have span : op.toJson.record.withDefault "span" {} Span.ofJson = .ok op.span := by
    rw [h.toJson_eq]
    exact Record.withDefault_ok rfl op.span.ofJson_toJson
  rw [ofJson, fields]
  simp only [ok_bind, kind, span]
  rw [withSpan_span]
  rfl

end Operation

/-! ## Bodies and compilations -/

namespace MethodBody

theorem fills (b : MethodBody) : Fills form.shape.fields b.toJson.record.fields :=
  .field b.owner.fits (.field (fits_text b.file) (.field b.body.fits .nil))

theorem fits (b : MethodBody) : form.shape.Fits b.toJson :=
  fits_record b.fills (by decide)

theorem ofJson_toJson (b : MethodBody) : ofJson b.toJson = .ok b := by
  have fields : readRecord ["owner", "file", "body"] b.toJson = .ok b.toJson.record :=
    b.fills.readRecord (by decide)
  have owner : b.toJson.record.required "owner" SymbolId.ofJson = .ok b.owner :=
    Record.required_ok rfl b.owner.ofJson_toJson
  have file : b.toJson.record.withDefault "file" "" readText = .ok b.file :=
    Record.withDefault_ok rfl rfl
  have body : b.toJson.record.required "body" Operation.ofJson = .ok b.body :=
    Record.required_ok rfl b.body.ofJson_toJson
  rw [ofJson, fields]
  simp only [ok_bind, owner, file, body]
  rfl

end MethodBody

namespace Compilation

/-- A compilation with the table of its symbols built anew. -/
def reread (c : Compilation) : Compilation :=
  { c with symbols := .ofSymbols c.symbols.toList }

theorem fills (c : Compilation) : Fills form.shape.fields c.toJson.record.fields := by
  simp only [toJson, record_object, List.cons_append, List.nil_append]
  refine .field (fits_text c.name)
    (.field? fits_text text_ne_null (.field c.symbols.fits (.field ?_ .nil)))
  refine fits_list fun v hv => ?_
  obtain ⟨b, -, rfl⟩ := List.mem_map.1 hv
  exact b.fits

theorem fits (c : Compilation) : form.shape.Fits c.toJson :=
  fits_record c.fills (by decide)

theorem ofJson_toJson (c : Compilation) : ofJson c.toJson = .ok c.reread := by
  have fields : readRecord ["name", "target_framework", "symbols", "bodies"] c.toJson =
      .ok c.toJson.record :=
    c.fills.readRecord (by decide)
  have name : c.toJson.record.required "name" readText = .ok c.name := Record.required_ok rfl rfl
  have target : c.toJson.record.optional "target_framework" readText = .ok c.targetFramework :=
    Record.optional_ok .text (by simp [toJson]) (fun _ => rfl) text_ne_null
  have symbols : c.toJson.record.withDefault "symbols" .empty SymbolTable.ofJson =
      .ok (.ofSymbols c.symbols.toList) :=
    Record.withDefault_ok (by simp [toJson]) c.symbols.ofJson_toJson
  have bodies : c.toJson.record.withDefault "bodies" [] (readList MethodBody.ofJson) =
      .ok c.bodies :=
    Record.withDefault_ok (by simp [toJson]) (readList_list fun b _ => b.ofJson_toJson)
  rw [ofJson, fields]
  simp only [ok_bind, name, target, symbols, bodies]
  rfl

end Compilation

/-- A compilation that is written and read back has the same name, target, symbols in their order,
and bodies. The table of the symbols is built anew from their list, so a compilation whose table
was built from a list is the same altogether. It makes no difference whether the value is read or
any text that spells it. -/
theorem compilation_json_round_trip (c : Compilation) :
    ∃ back, Compilation.ofJson c.toJson = .ok back ∧
      (back.name = c.name ∧ back.targetFramework = c.targetFramework ∧
        back.symbols.toList = c.symbols.toList ∧ back.bodies = c.bodies) ∧
      back.symbols = .ofSymbols c.symbols.toList ∧
      ((∃ symbols, c.symbols = .ofSymbols symbols) → back = c) ∧
      ∀ text, (Document.ofText text).check .anything = .ok c.toJson →
        Compilation.parse text = .ok back := by
  refine ⟨c.reread, c.ofJson_toJson, ⟨rfl, rfl, SymbolTable.toList_ofSymbols _, rfl⟩, rfl, ?_,
    fun text spelled => ?_⟩
  · rintro ⟨symbols, built⟩
    have same : SymbolTable.ofSymbols c.symbols.toList = c.symbols := by
      rw [built, SymbolTable.toList_ofSymbols]
    rw [Compilation.reread, same]
  · rw [Compilation.parse, Form.parse_of_fits c.fits spelled]
    exact c.ofJson_toJson

/-- A member that works on windows only, and a method that calls it. -/
def player : Compilation where
  name := "Player"
  targetFramework := some "net8.0"
  symbols := .ofSymbols
    [{ id := ⟨1⟩, name := "Beep", kind := .method
       attributes := [{ kind := .supported, platform := "windows", span := .onLine 2 3 4 }] },
      { id := ⟨2⟩, name := "Run", kind := .method }]
  bodies := [{ owner := ⟨2⟩, file := "P.cs", body := .invocation (.onLine 3 5 4) ⟨1⟩ none [] }]

def playerText : String :=
  "\x7b\"name\":\"Player\",\"target_framework\":\"net8.0\"," ++
  "\"symbols\":[\x7b\"id\":1,\"name\":\"Beep\"," ++ "\"kind\":\"method\",\"attributes\":[" ++
  "\x7b\"kind\":\"supported\"," ++ "\"platform\":\"windows\",\"span\":\x7b\"start\":" ++
  "\x7b\"line\":2,\"column\":3,\"offset\":0\x7d," ++ "\"end\":\x7b\"line\":2," ++
  "\"column\":7,\"offset\":0\x7d\x7d\x7d]\x7d," ++ "\x7b\"id\":2,\"name\":\"Run\"," ++
  "\"kind\":\"method\"\x7d]," ++ "\"bodies\":[\x7b\"owner\":2,\"file\":\"P.cs\"," ++
  "\"body\":\x7b\"kind\":\x7b\"op\":" ++ "\"invocation\",\"target\":1,\"arguments\":[]\x7d," ++
  "\"span\":\x7b\"start\":\x7b\"line\":3," ++ "\"column\":5,\"offset\":0\x7d," ++
  "\"end\":\x7b\"line\":3,\"column\":9," ++ "\"offset\":0\x7d\x7d\x7d\x7d]\x7d"

set_option maxRecDepth 4000 in
theorem player_spelled : (Document.ofText playerText).check .anything = .ok player.toJson := by
  have zero : Numeral.isInRange { whole := ['0'], part := .zero } = true := by decide +kernel
  have digits : (['1', '2', '3', '5', '7', '9'].all fun c =>
      Numeral.isInRange { whole := [c], part := .whole }) = true := by decide +kernel
  rw [List.all_eq_true] at digits
  unfold Document.ofText tokens playerText
  simp only [String.toList_append]
  conv => lhs; arg 1; cbv
  -- the range of numbers is too large to compute with here
  simp only [Document.check, Draft.check, Draft.anything, Draft.anyEntries,
    Draft.anyItems, Shape.base]
  simp only [zero, digits, List.mem_cons, true_or, or_true]
  rfl

theorem compilation_json_round_trip_player :
    (Document.ofText playerText).check .anything = .ok player.toJson ∧
      Compilation.parse playerText = .ok player := by
  obtain ⟨back, -, -, -, same, parsed⟩ := compilation_json_round_trip player
  rw [parsed playerText player_spelled, same ⟨_, rfl⟩]
  exact ⟨player_spelled, rfl⟩

end PlatformGuard
