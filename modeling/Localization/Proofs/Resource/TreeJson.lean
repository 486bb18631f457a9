import Localization.Resource.TreeJson
import Mathlib.Logic.Function.Defs

/-!
# A tree is what its JSON form says

Every node is written with all that it holds, and what tells its form apart from the others is
written beside it: under `type`, or as the only name of an object. So the tree can be read back from
its JSON form, whatever its strings, spans and indices are, and no two trees share one form.

Reading asks for members by name. Each question is therefore first answered for an object in terms
of its members, and the nodes are read back by these answers.

## Main statements

* `Json.memberString?_object`, `Json.memberItems?_bind` and their like — members by name
* `Pattern.ofJson?_toJson`, `Expression.ofJson?_toJson` — patterns and expressions are read back
* `Entry.ofJson?_toJson` — so are entries
* `Resource.toJson_faithful` — a resource is read back, and no other has its form
-/

namespace Localization

/-! ### Members of objects -/

namespace Json

variable {α β : Type} {members : List (String × Json)} {name : String} {value : Json}

@[simp] theorem string?_string (text : String) : (string text).string? = some text := rfl

@[simp] theorem number?_number (n : Nat) : (number n).number? = some n := rfl

@[simp] theorem bool?_bool (b : Bool) : (bool b).bool? = some b := rfl

@[simp] theorem lookup_cons_ite (key : String) (value : Json) :
    ((key, value) :: members).lookup name =
      if key = name then some value else members.lookup name := by
  by_cases h : key = name
  · simp [h]
  · rw [List.lookup_cons, beq_eq_false_iff_ne.2 (Ne.symm h), if_neg h]

/-- The member of a name is the first one under that name. -/
theorem map_val_find? (name : String) (members : List (String × Json)) :
    (find? name members).map Subtype.val = members.lookup name := by
  induction members with
  | nil => rfl
  | cons member rest ih =>
    obtain ⟨key, value⟩ := member
    rw [find?, lookup_cons_ite, ← ih]
    split
    · rfl
    · exact Option.map_map ..

/-- Looking up a member of an object is looking up its name in the list of members. -/
theorem map_val_member? (name : String) (members : List (String × Json)) :
    ((object members).member? name).map Subtype.val = members.lookup name := by
  rw [← map_val_find?, member?, Option.map_map]
  rfl

/-- A member that the list has is found, and it is smaller than the object. -/
theorem exists_member? (h : members.lookup name = some value) :
    ∃ hlt, (object members).member? name = some ⟨value, hlt⟩ := by
  rw [← map_val_member?, Option.map_eq_some_iff] at h
  obtain ⟨⟨found, hlt⟩, hmember, rfl⟩ := h
  exact ⟨hlt, hmember⟩

/-- A member is smaller than its object. -/
theorem sizeOf_lt_of_lookup (h : members.lookup name = some value) :
    sizeOf value < sizeOf (object members) := (exists_member? h).1

theorem member?_of_lookup (h : members.lookup name = some value) :
    (object members).member? name = some ⟨value, sizeOf_lt_of_lookup h⟩ := (exists_member? h).2

/-- A member that the list does not have is not found. -/
theorem member?_eq_none (h : members.lookup name = none) :
    (object members).member? name = none := by
  rwa [← map_val_member?, Option.map_eq_none_iff] at h

/-- What is read from a member does not depend on the proof that it is smaller. -/
@[simp] theorem unattach_member? :
    ((object members).member? name).unattach = members.lookup name :=
  map_val_member? name members

/-- Reading a member is reading what the list has under its name. -/
theorem member?_bind (read : Json → Option β) :
    ((object members).member? name >>= fun found => read found.1) =
      (members.lookup name).bind read := by
  rw [← map_val_member?, Option.bind_map]
  rfl

@[simp] theorem memberString?_object :
    (object members).memberString? name = (members.lookup name).bind string? :=
  member?_bind string?

@[simp] theorem memberNumber?_object :
    (object members).memberNumber? name = (members.lookup name).bind number? :=
  member?_bind number?

@[simp] theorem memberBool?_object :
    (object members).memberBool? name = (members.lookup name).bind bool? :=
  member?_bind bool?

@[simp] theorem memberSpan?_object :
    (object members).memberSpan? = (members.lookup "span").bind Span.ofJson? :=
  member?_bind Span.ofJson?

@[simp] theorem memberIdentifier?_object :
    (object members).memberIdentifier? name = (members.lookup name).bind Identifier.ofJson? :=
  member?_bind Identifier.ofJson?

@[simp] theorem memberKey?_object :
    (object members).memberKey? = (members.lookup "key").bind VariantKey.ofJson? :=
  member?_bind VariantKey.ofJson?

/-- The items of a member are read one after the other. -/
theorem memberItems?_bind (name : String) {items : List Json} {read : Json → Option α}
    {values : List α} (h : members.lookup name = some (array items))
    (hread : items.mapM read = some values) (next : List α → Option β) :
    (((object members).memberItems? name).bind fun found => (found.unattach.mapM read).bind next) =
      next values := by
  have hitems : ∃ found, (object members).memberItems? name = some found ∧
      found.unattach = items := by
    simp only [memberItems?, member?_of_lookup h, items?, Option.pure_def, Option.bind_eq_bind,
      Option.bind_some, Option.some.injEq, exists_eq_left', List.unattach, List.map_map]
    exact List.attach_map_subtype_val items
  obtain ⟨found, hfound, rfl⟩ := hitems
  rw [hfound, Option.bind_some, hread, Option.bind_some]

/-- A member that is null counts as absent. -/
theorem presentMember?_of_null (h : members.lookup name = some null) :
    (object members).presentMember? name = none := by
  rw [presentMember?, member?_of_lookup h]

/-- A member that is not null counts as present. -/
theorem presentMember?_of_ne (h : members.lookup name = some value) (hvalue : value ≠ null) :
    (object members).presentMember? name = some ⟨value, sizeOf_lt_of_lookup h⟩ := by
  unfold presentMember?
  rw [member?_of_lookup h]
  split
  · next heq => exact absurd (congrArg Subtype.val (Option.some.inj heq)) hvalue
  · rfl

/-- A member that is written for something that may be absent is read back as that. -/
theorem memberOption?_ofOption {read : Json → Option α} {write : α → Json}
    (hread : ∀ value, read (write value) = some value) (hwrite : ∀ value, write value ≠ null)
    {value : Option α} (h : members.lookup name = some (ofOption write value)) :
    (object members).memberOption? name read = some value := by
  unfold memberOption?
  cases value with
  | none => rw [presentMember?_of_null h]
  | some value =>
    rw [presentMember?_of_ne h (hwrite value)]
    exact congrArg (Option.map some) (hread value)

end Json

/-! ### Nodes without patterns -/

/-- A span is read back from its two offsets. -/
@[simp] theorem Span.ofJson?_toJson (span : Span) : ofJson? span.toJson = some span := by
  simp [ofJson?, toJson]

/-- A name is read back with its span. -/
@[simp] theorem Identifier.ofJson?_toJson (id : Identifier) : ofJson? id.toJson = some id := by
  simp [ofJson?, toJson]

/-- A comment is read back with its span. -/
theorem Comment.ofJson?_toJson (comment : Comment) :
    ofJson? comment.toJson = some comment := by
  simp [ofJson?, toJson]

/-- A key is read back as the name or the number that it was. -/
@[simp] theorem VariantKey.ofJson?_toJson (key : VariantKey) : ofJson? key.toJson = some key := by
  cases key <;> simp [ofJson?, toJson]

theorem Comment.toJson_ne_null (comment : Comment) : comment.toJson ≠ .null := nofun

/-! ### Patterns and expressions -/

/-- A pattern is never written as null, so a value that is there is told from one that is not. -/
theorem Pattern.toJson_ne_null : ∀ pattern : Pattern, pattern.toJson ≠ .null
  | ⟨_, _⟩ => nofun

/-- An expression is never written as null, so a selector that is there is told from one that is
not. -/
theorem Expression.toJson_ne_null (expression : Expression) : expression.toJson ≠ .null := by
  cases expression <;> nofun

mutual

/-- A pattern is read back with all its elements. -/
theorem Pattern.ofJson?_toJson : ∀ pattern : Pattern,
    Pattern.ofJson? pattern.toJson = some pattern
  | ⟨elements, span⟩ => by
    rw [Pattern.ofJson?, Pattern.toJson]
    simp [Json.memberItems?_bind "elements" _ (elements_ofJson?_toJson elements)]

theorem elements_ofJson?_toJson : ∀ elements : List PatternElement,
    (elementsToJson elements).mapM PatternElement.ofJson? = some elements
  | [] => rfl
  | element :: rest => by
    simp [elementsToJson, element.ofJson?_toJson, elements_ofJson?_toJson rest]

/-- A text or a placeable is read back as what it was. -/
theorem PatternElement.ofJson?_toJson : ∀ element : PatternElement,
    PatternElement.ofJson? element.toJson = some element
  | .text value span => by
    rw [PatternElement.ofJson?, PatternElement.toJson]
    simp
  | .placeable expression span => by
    rw [PatternElement.ofJson?, PatternElement.toJson]
    simp [expression.ofJson?_toJson]

/-- An expression is read back, whichever of its eight forms it has. -/
theorem Expression.ofJson?_toJson : ∀ expression : Expression,
    Expression.ofJson? expression.toJson = some expression
  | .stringLiteral value span => by
    rw [Expression.ofJson?, Expression.toJson]
    simp
  | .numberLiteral value span => by
    rw [Expression.ofJson?, Expression.toJson]
    simp
  | .messageReference id => by
    rw [Expression.ofJson?, Expression.toJson]
    simp [Identifier.ofJson?]
  | .variableReference id span => by
    rw [Expression.ofJson?, Expression.toJson]
    simp
  | .select none variants defaultIndex span => by
    rw [Expression.ofJson?, Expression.toJson, selectorToJson]
    simp [Json.presentMember?_of_null,
      Json.memberItems?_bind "variants" _ (variants_ofJson?_toJson variants)]
  | .select (some selector) variants defaultIndex span => by
    rw [Expression.ofJson?, Expression.toJson, selectorToJson]
    simp [selector.ofJson?_toJson,
      Json.presentMember?_of_ne _ selector.toJson_ne_null,
      Json.memberItems?_bind "variants" _ (variants_ofJson?_toJson variants)]
  | .attribute id name span => by
    rw [Expression.ofJson?, Expression.toJson]
    simp
  | .variant term key span => by
    rw [Expression.ofJson?, Expression.toJson]
    simp
  | .call callee args span => by
    rw [Expression.ofJson?, Expression.toJson]
    simp [Json.memberItems?_bind "args" _ (arguments_ofJson?_toJson args)]

theorem variants_ofJson?_toJson : ∀ variants : List Variant,
    (variantsToJson variants).mapM Variant.ofJson? = some variants
  | [] => rfl
  | variant :: rest => by
    simp [variantsToJson, variant.ofJson?_toJson, variants_ofJson?_toJson rest]

/-- A variant is read back with its key and whether it is the default. -/
theorem Variant.ofJson?_toJson : ∀ variant : Variant,
    Variant.ofJson? variant.toJson = some variant
  | ⟨key, value, isDefault, span⟩ => by
    rw [Variant.ofJson?, Variant.toJson]
    simp [value.ofJson?_toJson]

theorem arguments_ofJson?_toJson : ∀ args : List CallArgument,
    (argumentsToJson args).mapM CallArgument.ofJson? = some args
  | [] => rfl
  | argument :: rest => by
    simp [argumentsToJson, argument.ofJson?_toJson, arguments_ofJson?_toJson rest]

/-- An argument is read back with or without its name, as it was. -/
theorem CallArgument.ofJson?_toJson : ∀ argument : CallArgument,
    CallArgument.ofJson? argument.toJson = some argument
  | .positional value => by
    rw [CallArgument.ofJson?, CallArgument.toJson, Json.member?_of_lookup rfl]
    simp [value.ofJson?_toJson]
  | .named name value span => by
    rw [CallArgument.ofJson?, CallArgument.toJson, Json.member?_eq_none rfl]
    simp [value.ofJson?_toJson]

end

/-! ### Entries -/

/-- A list that is written item by item is read back item by item. -/
theorem Json.mapM_map_write {α : Type} {read : Json → Option α} {write : α → Json}
    (hread : ∀ value, read (write value) = some value) (values : List α) :
    (values.map write).mapM read = some values := by
  induction values with
  | nil => rfl
  | cons value rest ih => simp [hread, ih]

/-- An attribute is read back. -/
theorem Attribute.ofJson?_toJson (named : Attribute) :
    ofJson? named.toJson = some named := by
  rw [ofJson?, toJson]
  simp [named.value.ofJson?_toJson]

/-- The form that is written before the parts of a message does not hide any of them. -/
theorem Message.ofJson?_members (form : Json) (message : Message) :
    ofJson? (.object (("type", form) :: message.members)) = some message := by
  have hvalue : (Json.object (("type", form) :: message.members)).memberOption? "value"
      Pattern.ofJson? = some message.value :=
    Json.memberOption?_ofOption Pattern.ofJson?_toJson Pattern.toJson_ne_null rfl
  have hcomment : (Json.object (("type", form) :: message.members)).memberOption? "comment"
      Comment.ofJson? = some message.comment :=
    Json.memberOption?_ofOption Comment.ofJson?_toJson Comment.toJson_ne_null rfl
  rw [ofJson?, hvalue, hcomment, members]
  simp [Json.memberItems?_bind "attributes" _
    (Json.mapM_map_write Attribute.ofJson?_toJson message.attributes)]

/-- An annotation is read back with its code, its arguments and its message. -/
theorem Diagnostic.ofJson?_toJson (diagnostic : Diagnostic) :
    ofJson? diagnostic.toJson = some diagnostic := by
  rw [ofJson?, toJson]
  simp [Json.memberItems?_bind "args" _
    (Json.mapM_map_write Json.string?_string diagnostic.args)]

/-- An entry is read back, since each of its six forms has a name of its own. -/
theorem Entry.ofJson?_toJson (entry : Entry) : ofJson? entry.toJson = some entry := by
  cases entry with
  | message m => simp [ofJson?, toJson, m.ofJson?_members]
  | term m => simp [ofJson?, toJson, m.ofJson?_members]
  | comment level c =>
    cases level <;>
      simp [ofJson?, toJson, CommentLevel.typeName, Comment.ofJson?]
  | junk j =>
    simp [ofJson?, toJson, Junk.ofJson?, Json.memberItems?_bind "annotations" _
      (Json.mapM_map_write Diagnostic.ofJson?_toJson j.diagnostics)]

/-- A resource is read back from what is written of it. -/
theorem Resource.ofJson?_toJson (resource : Resource) :
    ofJson? resource.toJson = some resource := by
  rw [ofJson?, toJson]
  simp [Json.memberItems?_bind "body" _ (Json.mapM_map_write Entry.ofJson?_toJson resource.body)]

/-- The JSON form of a resource loses nothing: the resource can be read back from it, and no other
resource has the same form. -/
theorem Resource.toJson_faithful :
    (∀ resource : Resource, ofJson? resource.toJson = some resource) ∧
      Function.Injective toJson :=
  ⟨ofJson?_toJson, fun left right h => Option.some.inj <| by
    rw [← ofJson?_toJson left, h, ofJson?_toJson]⟩

end Localization
