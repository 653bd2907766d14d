import PlatformGuard.Json.Compilation

/-!
# Reading what was written

What a reader makes of a value that was written for it: of a number, of a name, of a list, and of a
record whose fields stand in their order, some of them left out.

A text is held against a shape before it is read. `Fits` says of a value that this makes no
difference: wherever a text spells the value, the shape lets it through as it is.
-/

namespace PlatformGuard.Json

/-! ## Plain values -/

theorem readBelow_nat {bound n : Nat} (h : n < bound) : readBelow bound (.nat n) = .ok n := by
  have inside : (0 : Int) ≤ n ∧ (n : Int) < bound := ⟨Int.natCast_nonneg n, Int.ofNat_lt.2 h⟩
  rw [nat, readBelow, if_pos inside, Int.toNat_natCast]

theorem readUInt32_toNat (x : UInt32) : readUInt32 (.nat x.toNat) = .ok x := by
  rw [readUInt32, readBelow_nat x.toNat_lt_size]
  exact congrArg Except.ok UInt32.ofNat_toNat

theorem readUInt64_toNat (x : UInt64) : readUInt64 (.nat x.toNat) = .ok x := by
  rw [readUInt64, readBelow_nat x.toNat_lt_size]
  exact congrArg Except.ok UInt64.ofNat_toNat

theorem readInt64_toInt (x : Int64) : readInt64 (.int x.toInt) = .ok x := by
  have inside : -9223372036854775808 ≤ x.toInt ∧ x.toInt ≤ 9223372036854775807 :=
    ⟨x.le_toInt, Int.lt_add_one_iff.1 x.toInt_lt⟩
  rw [readInt64, if_pos inside, Int64.ofInt_toInt]

/-- Reading goes on after what was read. The brackets keep the step out of definitional unfolding,
which would hold a reader against the next one by running both. -/
theorem ok_bind {α β : Type} (a : α) (next : α → Except JsonError β) :
    (Except.ok a >>= next) = next a := (rfl)

theorem mapM_map_ok {α β : Type} {write : α → β} {read : β → Except JsonError α} {items : List α}
    (h : ∀ a ∈ items, read (write a) = .ok a) : (items.map write).mapM read = .ok items := by
  induction items with
  | nil => rfl
  | cons a rest ih =>
    obtain ⟨first, others⟩ := List.forall_mem_cons.1 h
    rw [List.map_cons, List.mapM_cons, first, ih others]
    rfl

theorem readList_list {α : Type} {write : α → Json} {read : Json → Except JsonError α}
    {items : List α} (h : ∀ a ∈ items, read (write a) = .ok a) :
    readList read (.list write items) = .ok items :=
  mapM_map_ok h

/-! ## Records -/

namespace Record

variable {α β : Type} {names : List String} {positional : Bool}

theorem foldlM_addEntry {entries seen : List (String × α)} (known : ∀ e ∈ entries, e.1 ∈ names)
    (distinct : ((seen ++ entries).map (·.1)).Nodup) :
    entries.foldlM (addEntry names) seen = .ok (seen ++ entries) := by
  induction entries generalizing seen with
  | nil => rw [List.append_nil]; rfl
  | cons e rest ih =>
    obtain ⟨hknown, others⟩ := List.forall_mem_cons.1 known
    have fresh : (seen.any fun f => f.1 == e.1) = false := by
      rw [List.any_eq_false]
      intro f hf heq
      rw [List.map_append, List.map_cons] at distinct
      have apart := (List.nodup_append.1 distinct).2.2 f.1
        (List.mem_map_of_mem hf) e.1 List.mem_cons_self
      exact apart (eq_of_beq heq)
    have first : addEntry names seen e = .ok (seen ++ [e]) := by
      rw [addEntry, if_pos hknown, fresh]
      rfl
    rw [List.foldlM_cons, first]
    have shifted : seen ++ e :: rest = (seen ++ [e]) ++ rest :=
      (List.append_assoc seen [e] rest).symm
    rw [shifted] at distinct ⊢
    exact ih others distinct

/-- An object whose keys are names of fields in their order gives its entries. -/
theorem ofLayout_named {entries : List (String × α)} (keys : (entries.map (·.1)).Sublist names)
    (distinct : names.Nodup) :
    ofLayout names (.named entries) = .ok ⟨false, entries⟩ := by
  have known : ∀ e ∈ entries, e.1 ∈ names := fun e he => keys.subset (List.mem_map_of_mem he)
  have all : entries.foldlM (addEntry names) [] = .ok ([] ++ entries) :=
    foldlM_addEntry known (keys.nodup distinct)
  rw [ofLayout, all]
  rfl

/-! ### Fields -/

@[simp] theorem find?_nil (name : String) : find? (⟨positional, []⟩ : Record α) name = none := rfl

@[simp] theorem find?_cons (key name : String) (v : α) (rest : List (String × α)) :
    find? ⟨positional, (key, v) :: rest⟩ name =
      if key = name then some v else find? ⟨positional, rest⟩ name := by
  by_cases h : key = name <;> simp [find?, h]

@[simp] theorem find?_append (name : String) (entries rest : List (String × α)) :
    find? ⟨positional, entries ++ rest⟩ name =
      (find? ⟨positional, entries⟩ name).or (find? ⟨positional, rest⟩ name) := by
  rw [find?, List.find?_append, Option.map_or]
  rfl

@[simp] theorem find?_field? (key name : String) (write : β → Json) (value : Option β) :
    find? ⟨positional, field? key write value⟩ name =
      if key = name then value.map write else none := by
  cases value <;> simp [field?]

@[simp] theorem find?_listField (key name : String) (write : β → Json) (items : List β) :
    find? ⟨positional, listField key write items⟩ name =
      if key = name ∧ items ≠ [] then some (.list write items) else none := by
  cases items <;> simp [listField]

theorem find?_map (f : α → β) (entries : List (String × α)) (name : String) :
    find? ⟨positional, entries.map fun e => (e.1, f e.2)⟩ name =
      (find? ⟨positional, entries⟩ name).map f := by
  rw [find?, List.find?_map, Option.map_map, find?, Option.map_map]
  rfl

theorem required_ok {r : Record α} {name : String} {read : α → Except JsonError β} {v : α} {b : β}
    (h : r.find? name = some v) (back : read v = .ok b) : r.required name read = .ok b := by
  rw [required, h]
  exact back

theorem withDefault_ok {r : Record α} {name : String} {read : α → Except JsonError β} {v : α}
    {b otherwise : β} (h : r.find? name = some v) (back : read v = .ok b) :
    r.withDefault name otherwise read = .ok b := by
  rw [withDefault, h]
  exact back

variable {r : Record Json} {name : String} {read : Json → Except JsonError β}

/-- A field that is left out when there is no value. -/
theorem optional_ok (write : β → Json) {value : Option β} (h : r.find? name = value.map write)
    (back : ∀ b, read (write b) = .ok b) (notNull : ∀ b, write b ≠ .null) :
    r.optional name read = .ok value := by
  rw [optional, withDefault, h]
  cases value with
  | none => rfl
  | some b =>
    show readOption read (write b) = _
    rw [readOption, back]
    · rfl
    · exact notNull b

/-- A field that is left out when the list is empty. -/
theorem listField_ok (write : β → Json) {items : List β}
    (h : r.find? name = if items ≠ [] then some (.list write items) else none)
    (back : ∀ b ∈ items, read (write b) = .ok b) :
    r.withDefault name [] (readList read) = .ok items := by
  rw [withDefault, h]
  cases items with
  | nil => rfl
  | cons b rest => exact readList_list back

end Record

/-! ## Shapes -/

/-- What a draft is that spells a value, with so many brackets to be opened yet. -/
inductive Draft.Spells (left : Nat) : Draft → Json → Prop where
  | null : Spells left .null .null
  | bool (b : Bool) : Spells left (.bool b) (.bool b)
  | number {n : Numeral} {v : Json} (value : n.value = v) : Spells left (.number n) v
  | text (t : String) : Spells left (.text (some t)) (.text t)
  | array {items : List Draft} {close : Close} {vs : List Json} (opens : left ≠ 0)
      (values : anyItems (left - 1) items close = .ok vs) : Spells left
        (.array items close) (.array vs)
  | object {entries : List (DraftKey × Draft)} {close : Close} {vs : List (String × Json)}
      (opens : left ≠ 0)
      (values : anyEntries (left - 1) entries close = .ok vs) : Spells left
        (.object entries close) (.object vs)

theorem map_eq_ok {α β : Type} {f : α → β} {x : Except JsonError α} {b : β} (h : x.map f = .ok b) :
    ∃ a, x = .ok a ∧ f a = b := by
  cases x with
  | error e => cases h
  | ok a => exact ⟨a, rfl, Except.ok.inj h⟩

theorem bind_eq_ok {α β : Type} {next : α → Except JsonError β} {x : Except JsonError α} {b : β}
    (h : (x >>= next) = .ok b) : ∃ a, x = .ok a ∧ next a = .ok b := by
  cases x with
  | error e => cases h
  | ok a => exact ⟨a, rfl, h⟩

theorem Draft.spells_of_anything {left : Nat} {d : Draft} {v : Json} (h : d.anything left = .ok v) :
    Spells left d v := by
  cases d with
  | null => cases h; exact .null
  | bool b => cases h; exact .bool b
  | number n =>
    rw [anything] at h
    split at h
    · exact .number (Except.ok.inj h)
    · cases h
  | text value =>
    cases value with
    | none => cases h
    | some t => cases h; exact .text t
  | array items close =>
    rw [anything] at h
    split at h
    · cases h
    · obtain ⟨vs, values, rfl⟩ := map_eq_ok h
      exact .array ‹_› values
  | object entries close =>
    rw [anything] at h
    split at h
    · cases h
    · obtain ⟨vs, values, rfl⟩ := map_eq_ok h
      exact .object ‹_› values
  | broken start fault => cases h

theorem Numeral.value_ne {n : Numeral} {v : Json} (h : n.value = v) :
    (∃ i, v = .int i) ∨ ∃ mantissa exponent, v = .real mantissa exponent := by
  subst h
  unfold Numeral.value
  extract_lets mantissa signed
  split
  · exact .inl ⟨_, rfl⟩
  · exact .inr ⟨_, _, rfl⟩

theorem Draft.eq_text_of_anything {left : Nat} {d : Draft} {t : String}
    (h : d.anything left = .ok (.text t)) :
    d = .text (some t) := by
  cases spells_of_anything h with
  | text => rfl
  | number value => rcases Numeral.value_ne value with ⟨_, h⟩ | ⟨_, _, h⟩ <;> cases h

theorem Draft.eq_array_of_anything {left : Nat} {d : Draft} {vs : List Json}
    (h : d.anything left = .ok (.array vs)) :
    ∃ items close, d = .array items close ∧ left ≠ 0 ∧
      anyItems (left - 1) items close = .ok vs := by
  cases spells_of_anything h with
  | array opens values => exact ⟨_, _, rfl, opens, values⟩
  | number value => rcases Numeral.value_ne value with ⟨_, h⟩ | ⟨_, _, h⟩ <;> cases h

theorem Draft.eq_object_of_anything {left : Nat} {d : Draft} {vs : List (String × Json)}
    (h : d.anything left = .ok (.object vs)) :
    ∃ entries close, d = .object entries close ∧ left ≠ 0 ∧
      anyEntries (left - 1) entries close = .ok vs := by
  cases spells_of_anything h with
  | object opens values => exact ⟨_, _, rfl, opens, values⟩
  | number value => rcases Numeral.value_ne value with ⟨_, h⟩ | ⟨_, _, h⟩ <;> cases h

/-- Wherever a text spells the value, the shape lets it through as it is. -/
def Shape.Fits (s : Shape) (v : Json) : Prop :=
    ∀ left (d : Draft), d.anything left = .ok v → d.check left s = .ok v

namespace Shape

open Draft

theorem fits_text (t : String) : Shape.text.Fits (.text t) := by
  intro left d h
  rw [eq_text_of_anything h]
  rfl

theorem fits_natural {bound n : Nat} (hn : n < bound) : (Shape.natural bound).Fits (.nat n) := by
  intro left d h
  cases spells_of_anything h with
  | number value =>
    have inside : (0 : Int) ≤ n ∧ (n : Int) < bound := ⟨Int.natCast_nonneg n, Int.ofNat_lt.2 hn⟩
    unfold check scalar base
    simp only [value]
    exact if_pos inside

theorem fits_name {names : List String} {t : String} (ht : t ∈ names) :
    (Shape.name names).Fits (.text t) := by
  intro left d h
  rw [eq_text_of_anything h]
  exact if_pos ht

/-- Where null will do as well, a value that is not null still has to fit. -/
theorem Fits.nullable {s : Shape} {v : Json} (h : s.Fits v) (notNull : v ≠ .null) :
    (Shape.nullable s).Fits v := by
  intro left d hd
  have checked := h left d hd
  cases spells_of_anything hd with
  | null => exact absurd rfl notNull
  | bool | number | text =>
    unfold check scalar at checked ⊢
    cases s <;> exact checked
  | array | object =>
    unfold check at checked ⊢
    exact checked

theorem fits_list {item : Shape} {vs : List Json} (h : ∀ v ∈ vs, item.Fits v) :
    (Shape.list item).Fits (.array vs) := by
  have all : ∀ left items close, anyItems left items close = .ok vs →
      checkItems left item items close = .ok vs := by
    intro left items close
    induction items generalizing vs with
    | nil => exact id
    | cons d rest ih =>
      intro hitems
      rw [anyItems] at hitems
      obtain ⟨v, hv, hitems⟩ := bind_eq_ok hitems
      obtain ⟨others, hothers, hitems⟩ := bind_eq_ok hitems
      obtain rfl : v :: others = vs := Except.ok.inj hitems
      obtain ⟨first, later⟩ := List.forall_mem_cons.1 h
      rw [checkItems, first left d hv, ok_bind, ih later hothers, ok_bind]
      rfl
  intro left d hd
  obtain ⟨items, close, rfl, opens, values⟩ := eq_array_of_anything hd
  unfold check
  show (if left = 0 then _ else _) = _
  rw [if_neg opens, all _ _ _ values]
  rfl

end Shape

def record : Json → Record Json
  | object entries => ⟨false, entries⟩
  | _ => ⟨false, []⟩

@[simp] theorem record_object (entries : List (String × Json)) :
    (object entries).record = ⟨false, entries⟩ := rfl

def Shape.fields : Shape → List (String × Presence × Shape)
  | record fields => fields
  | _ => []

/-- An object fills the fields of a record in their order. Only a required field has to be there. -/
inductive Fills : List (String × Presence × Shape) → List (String × Json) → Prop where
  | nil : Fills [] []
  | field {key : String} {presence : Presence} {shape : Shape} {v : Json}
      {fields : List (String × Presence × Shape)}
      {entries : List (String × Json)} (fits : shape.Fits v) (rest : Fills fields entries) :
      Fills ((key, presence, shape) :: fields) ((key, v) :: entries)
  | leftOut {key : String} {presence : Presence} {shape : Shape}
      {fields : List (String × Presence × Shape)}
      {entries : List (String × Json)} (notRequired : presence ≠ .required)
      (rest : Fills fields entries) :
      Fills ((key, presence, shape) :: fields) entries

namespace Fills

variable {fields : List (String × Presence × Shape)} {entries : List (String × Json)}

theorem keys (h : Fills fields entries) : (entries.map (·.1)).Sublist (fields.map (·.1)) := by
  induction h with
  | nil => exact .slnil
  | field _ _ ih => exact ih.cons_cons _
  | leftOut _ _ ih => exact ih.cons _

theorem complete (h : Fills fields entries) : ∀ f ∈ fields,
    f.2.1 = .required → f.1 ∈ entries.map (·.1) := by
  induction h with
  | nil => exact fun _ hf => absurd hf List.not_mem_nil
  | field _ _ ih =>
    refine List.forall_mem_cons.2 ⟨fun _ => List.mem_cons_self, fun f hf required => ?_⟩
    exact List.mem_cons_of_mem _ (ih f hf required)
  | leftOut notRequired _ ih =>
    exact List.forall_mem_cons.2 ⟨fun required => absurd required notRequired, ih⟩

theorem find? (h : Fills fields entries) (distinct : (fields.map (·.1)).Nodup) :
    ∀ e ∈ entries, ∃ f, fields.find? (fun f => f.1 == e.1) = some f ∧ f.2.2.Fits e.2 := by
  -- a field that stands before those of the other entries has a key of its own
  have skip : ∀ {first : String × Presence × Shape} {fields : List (String × Presence × Shape)}
      {entries : List (String × Json)}, Fills fields entries → ((first :: fields).map (·.1)).Nodup →
      ∀ e ∈ entries, ((first :: fields).find? fun f => f.1 == e.1) = fields.find? fun f =>
      f.1 == e.1 := by
    intro first fields entries fills distinct e he
    have mem : e.1 ∈ fields.map (·.1) := fills.keys.subset (List.mem_map_of_mem he)
    have apart : (first.1 == e.1) = false :=
      beq_eq_false_iff_ne.2 fun heq =>
      (List.nodup_cons.1 distinct).1 (show first.1 ∈ _ from heq.symm ▸ mem)
    rw [List.find?_cons, apart]
  induction h with
  | nil => exact fun _ he => absurd he List.not_mem_nil
  | field fits rest ih =>
    refine List.forall_mem_cons.2
      ⟨⟨_, List.find?_cons_of_pos (beq_self_eq_true _), fits⟩, fun e he => ?_⟩
    rw [skip rest distinct e he]
    exact ih (List.nodup_cons.1 distinct).2 e he
  | leftOut _ rest ih =>
    intro e he
    rw [skip rest distinct e he]
    exact ih (List.nodup_cons.1 distinct).2 e he

theorem readRecord (h : Fills fields entries) (distinct : (fields.map (·.1)).Nodup) :
    readRecord (fields.map (·.1)) (.object entries) = .ok (Json.object entries).record :=
  Record.ofLayout_named h.keys distinct

theorem field? {α : Type} {key : String} {shape : Shape} {write : α → Json} {value : Option α}
    (fits : ∀ a, shape.Fits (write a)) (notNull : ∀ a, write a ≠ .null)
    (rest : Fills fields entries) :
    Fills ((key, .optional, .nullable shape) :: fields)
    (Json.field? key write value ++ entries) := by
  cases value with
  | none => exact .leftOut (by decide) rest
  | some a => exact .field ((fits a).nullable (notNull a)) rest

theorem listField {α : Type} {key : String} {shape : Shape} {write : α → Json} {items : List α}
    (fits : ∀ a, shape.Fits (write a)) (rest : Fills fields entries) :
    Fills ((key, .optional, .list shape) :: fields)
    (PlatformGuard.listField key write items ++ entries) := by
  cases items with
  | nil => exact .leftOut (by decide) rest
  | cons a others =>
    refine .field (Shape.fits_list fun v hv => ?_) rest
    obtain ⟨b, -, rfl⟩ := List.mem_map.1 hv
    exact fits b

end Fills

namespace Shape

open Draft

/-- The fields of a record from some entry on, after those already seen. -/
theorem checkFields_ok {left : Nat} {fields : List (String × Presence × Shape)}
    {es : List (DraftKey × Draft)} {close : Close} {entries : List (String × Json)}
    {seen : List String} (values : anyEntries left es close = .ok entries)
    (each : ∀ e ∈ entries, ∃ f, fields.find? (fun f => f.1 == e.1) = some f ∧ f.2.2.Fits e.2)
    (distinct : (entries.map (·.1)).Nodup) (fresh : ∀ e ∈ entries, e.1 ∉ seen)
    (complete : ∀ f ∈ fields, f.2.1 = .required → f.1 ∈ seen ∨ f.1 ∈ entries.map (·.1)) :
    checkFields left fields seen es close = .ok entries := by
  induction es generalizing entries seen with
  | nil =>
    cases close with
    | cut e => cases values
    | closed =>
      obtain rfl : [] = entries := Except.ok.inj values
      have all : (fields.all fun f => f.2.1 != .required || seen.contains f.1) = true := by
        refine List.all_eq_true.2 fun f hf => ?_
        by_cases required : f.2.1 = .required
        · simpa using .inr ((complete f hf required).resolve_right List.not_mem_nil)
        · simp [required]
      rw [checkFields]
      show (if (fields.all fun f => f.2.1 != .required || seen.contains f.1) = true then _
        else _) = _
      rw [if_pos all]
      rfl
  | cons entry rest ih =>
    obtain ⟨k, d⟩ := entry
    rw [anyEntries] at values
    obtain ⟨key, hkey, values⟩ := bind_eq_ok values
    obtain ⟨v, hv, values⟩ := bind_eq_ok values
    obtain ⟨others, hothers, values⟩ := bind_eq_ok values
    obtain rfl : (key, v) :: others = entries := Except.ok.inj values
    obtain ⟨⟨⟨name, presence, shape⟩, found, fits⟩, eachOther⟩ := List.forall_mem_cons.1 each
    obtain ⟨freshKey, freshOthers⟩ := List.forall_mem_cons.1 fresh
    obtain ⟨apart, distinctOthers⟩ := List.nodup_cons.1 distinct
    have unseen : seen.contains key = false := by simpa using freshKey
    have later : checkFields left fields (key :: seen) rest close = .ok others := by
      refine ih hothers eachOther distinctOthers (fun e he => ?_) fun f hf required => ?_
      · intro hmem
        rcases List.mem_cons.1 hmem with heq | hseen
        · have later : e.1 ∈ others.map (·.1) := List.mem_map_of_mem he
          exact apart (heq ▸ later)
        · exact freshOthers e he hseen
      · rcases complete f hf required with hseen | hkeys
        · exact .inl (List.mem_cons_of_mem _ hseen)
        · rcases List.mem_cons.1 hkeys with hkeys | hkeys
          · exact .inl (hkeys ▸ List.mem_cons_self)
          · exact .inr hkeys
    rw [checkFields, hkey, ok_bind, found]
    dsimp only
    rw [unseen, if_neg Bool.false_ne_true, fits left d hv, ok_bind, later, ok_bind]
    rfl

/-- An object that fills the fields of a record fits it. -/
theorem fits_record {fields : List (String × Presence × Shape)} {entries : List (String × Json)}
    (fills : Fills fields entries) (distinct : (fields.map (·.1)).Nodup) :
    (Shape.record fields).Fits (.object entries) := by
  intro left d hd
  obtain ⟨es, close, rfl, opens, values⟩ := eq_object_of_anything hd
  unfold check
  show (if left = 0 then _ else _) = _
  rw [if_neg opens, checkFields_ok values (fills.find? distinct) (fills.keys.nodup distinct)
    (fun _ _ => List.not_mem_nil) fun f hf required => .inr (fills.complete f hf required)]
  rfl

/-- The parts of a tagged object after its tag. -/
theorem taggedEntries_ok {left : Nat} {tag : String} {tags : List String}
    {es : List (DraftKey × Draft)} {close : Close} {parts : List (String × Json)}
    (values : anyEntries left es close = .ok parts) (others : ∀ e ∈ parts, e.1 ≠ tag) :
    taggedEntries left tag tags true es close = .ok parts := by
  induction es generalizing parts with
  | nil =>
    cases close with
    | cut e => cases values
    | closed => exact values
  | cons entry rest ih =>
    obtain ⟨k, d⟩ := entry
    rw [anyEntries] at values
    obtain ⟨key, hkey, values⟩ := bind_eq_ok values
    obtain ⟨v, hv, values⟩ := bind_eq_ok values
    obtain ⟨later, hlater, values⟩ := bind_eq_ok values
    obtain rfl : (key, v) :: later = parts := Except.ok.inj values
    obtain ⟨apart, apartLater⟩ := List.forall_mem_cons.1 others
    rw [taggedEntries, hkey, ok_bind, if_neg apart, hv, ok_bind, ih hlater apartLater, ok_bind]
    rfl

/-- A tagged object fits if the tag stands first and is one of those known, and the whole will
do. -/
theorem fits_tagged {tag name : String} {tags : List String} {accepts : Json → Bool}
    {parts : List (String × Json)} (known : name ∈ tags) (others : ∀ e ∈ parts, e.1 ≠ tag)
    (whole : accepts (.object ((tag, .text name) :: parts)) = true) :
    (Shape.tagged tag tags accepts).Fits (.object ((tag, .text name) :: parts)) := by
  have all : ∀ left es close, anyEntries left es close = .ok ((tag, .text name) :: parts) →
      taggedEntries left tag tags false es close = .ok ((tag, .text name) :: parts) := by
    intro left es close values
    cases es with
    | nil => cases close <;> cases values
    | cons entry rest =>
      obtain ⟨k, d⟩ := entry
      rw [anyEntries] at values
      obtain ⟨key, hkey, values⟩ := bind_eq_ok values
      obtain ⟨v, hv, values⟩ := bind_eq_ok values
      obtain ⟨later, hlater, values⟩ := bind_eq_ok values
      obtain ⟨⟨rfl, rfl⟩, rfl⟩ : (key = tag ∧ v = .text name) ∧ later = parts := by
        simpa using Except.ok.inj values
      obtain rfl := eq_text_of_anything hv
      have named : namedText tags (.text (some name)) = .ok (.text name) := if_pos known
      rw [taggedEntries, hkey, ok_bind, if_pos rfl]
      dsimp only
      rw [if_neg Bool.false_ne_true, named, ok_bind, taggedEntries_ok hlater others, ok_bind]
      rfl
  intro left d hd
  obtain ⟨es, close, rfl, opens, values⟩ := eq_object_of_anything hd
  unfold check
  show (if left = 0 then _ else _) = _
  rw [if_neg opens, all _ _ _ values]
  exact if_pos whole

end Shape

theorem Draft.check_anything (left : Nat) (d : Draft) :
    d.check left .anything = d.anything left := by
  cases d with
  | text value => cases value <;> rfl
  | _ => rfl

/-- A text that spells a value which fits is read as the value is. -/
theorem Form.parse_of_fits {α : Type} {f : Form α} {v : Json} (fits : f.shape.Fits v) {s : String}
    (h : (Document.ofText s).check .anything = .ok v) : f.parse s = f.read v := by
  obtain ⟨w, spelled, whole⟩ := bind_eq_ok h
  have nothingMore : (Document.ofText s).more = false := by
    cases more : (Document.ofText s).more with
    | false => rfl
    | true =>
      rw [more] at whole
      cases whole
  rw [nothingMore] at whole
  obtain rfl : w = v := Except.ok.inj whole
  rw [Draft.check_anything] at spelled
  have checked : (Document.ofText s).check f.shape = .ok w := by
    rw [Document.check, fits _ _ spelled, ok_bind, nothingMore]
    rfl
  rw [parse, checked]
  rfl

end PlatformGuard.Json
