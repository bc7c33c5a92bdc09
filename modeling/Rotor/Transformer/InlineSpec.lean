import Rotor.Transformer.Inline

/-!
What inlined strings stand for in the emitted text.

The strings of an environment, a file or a template become string literals of the syntax tree, and
the keys of a JSON object become those of map fields. What is written for one of them has its
value exactly where it renders faithfully.
-/

namespace Rotor.Transformer

open List Luau Luau.Render

/-! ### What is written for a string -/

/-- A literal, or a name before the equals sign of a field. -/
inductive Written where
  | literal (text : Bytes)
  | name (text : Bytes)

def Written.text : Written → Bytes
  | .literal text | .name text => text

def Written.value : Written → Option Bytes
  | .literal text => evaluateLiteral text
  | .name text => some text

def writeKey (key : Bytes) : Written :=
  match fieldName (.stringLiteral key) with
  | some name => .name name
  | none => .literal (renderStringLiteral .bracket key)

/-- The text is written for a string of the node. -/
inductive Writes : Slot → Node → Bytes → Written → Prop where
  | literal {slot value} :
      Writes slot (.stringLiteral value) value (.literal (renderStringLiteral slot value))
  | member {slot members member value written} : member ∈ members →
      Writes .other member value written → Writes slot (.array members) value written
  | field {slot fields field value written} : field ∈ fields →
      Writes .other field value written → Writes slot (.map fields) value written
  | key {slot key value} : Writes slot (.mapField (.stringLiteral key) value) key (writeKey key)
  | fieldValue {slot index content value written} : Writes .other content value written →
      Writes slot (.mapField index content) value written

lemma rendersFaithfully_of_identifier {name : Bytes} (valid : isValidIdentifier name) :
    rendersFaithfully name := by
  have parts : ∀ c ∈ name, isIdentifierPart c := by
    cases name with
    | nil => nomatch valid
    | cons first rest =>
      simp only [isValidIdentifier, Bool.and_eq_true, all_eq_true] at valid
      intro c mem
      rcases mem_cons.1 mem with rfl | later
      · simp [isIdentifierPart, valid.1.1]
      · exact valid.1.2 c later
  have absent : ∀ c, isIdentifierPart c = false → name.contains c = false := by
    intro c other
    by_contra present
    simp only [Bool.not_eq_false, contains_eq_mem, decide_eq_true_eq] at present
    nomatch other.symm.trans (parts c present)
  rw [rendersFaithfully, absent 0 rfl, absent 10 rfl, absent 34 rfl, absent 92 rfl, absent 13 rfl]
  rfl

lemma writeKey_value_iff (key : Bytes) :
    (writeKey key).value = some key ↔ rendersFaithfully key := by
  rw [writeKey, fieldName]
  by_cases valid : isValidIdentifier key
  · rw [if_pos valid]
    exact iff_of_true rfl (rendersFaithfully_of_identifier valid)
  · rw [if_neg valid]
    exact evaluateLiteral_renderStringLiteral_iff .bracket key

variable {slot : Slot} {val text : Bytes} {texts : List Bytes} {node : Node}

lemma Writes.value_iff {node : Node} {written : Written} (writes : Writes slot node val written) :
    written.value = some val ↔ rendersFaithfully val := by
  induction writes with
  | literal => exact evaluateLiteral_renderStringLiteral_iff _ _
  | member _ _ ih => exact ih
  | field _ _ ih => exact ih
  | key => exact writeKey_value_iff _
  | fieldValue _ ih => exact ih

/-! ### Where it is written -/

lemma infix_join (separator : Bytes) (mem : text ∈ texts) : text <:+: join separator texts := by
  fun_induction join separator texts with
  | case1 => nomatch mem
  | case2 only => exact mem_singleton.1 mem ▸ infix_rfl
  | case3 first rest _ ih =>
    rcases mem_cons.1 mem with rfl | later
    · exact ⟨[], separator ++ join separator rest, by simp⟩
    · exact (ih later).trans (suffix_append ..).isInfix

lemma infix_renderTable (indent : Nat) (mem : text ∈ texts) :
    text <:+: renderTable indent texts := by
  have line' : text <:+: line (indent + 1) text := ⟨repeatByte 9 (indent + 1), str "\n", rfl⟩
  have inside : line (indent + 1) text <:+: (texts.map (line (indent + 1))).flatten :=
    infix_of_mem_flatten (mem_map_of_mem mem)
  have nonempty : texts.isEmpty = false := by
    cases texts with
    | nil => nomatch mem
    | cons => rfl
  rw [renderTable, nonempty, if_neg (by decide), append_assoc]
  exact (line'.trans inside).trans ⟨str "\x7b\n", _, by rw [append_assoc]⟩

lemma renderEach_mem {env : Env} {indent : Nat} {nodes : List Node}
    (rendered : renderEach env indent slot nodes = some texts) {node : Node} (mem : node ∈ nodes) :
    ∃ text ∈ texts, render env indent slot node = some text := by
  induction nodes generalizing texts with
  | nil => nomatch mem
  | cons first rest ih =>
    rw [renderEach] at rendered
    obtain ⟨text, renderedFirst, rendered⟩ := Option.bind_eq_some_iff.1 rendered
    obtain ⟨more, renderedRest, same⟩ := Option.bind_eq_some_iff.1 rendered
    cases same
    rcases mem_cons.1 mem with rfl | later
    · exact ⟨text, mem_cons_self, renderedFirst⟩
    · obtain ⟨found, inside, renderedNode⟩ := ih renderedRest later
      exact ⟨found, mem_cons_of_mem _ inside, renderedNode⟩

lemma Writes.infix {node : Node} {written : Written} (writes : Writes slot node val written)
    {env : Env} {indent : Nat} (rendered : render env indent slot node = some text) :
    written.text <:+: text := by
  induction writes generalizing indent text with
  | literal =>
    rw [render] at rendered
    exact Option.some.inj rendered ▸ infix_rfl
  | @member slot members mem val written inside _ ih =>
    rw [render] at rendered
    obtain ⟨texts, renderedEach, rendered⟩ := Option.bind_eq_some_iff.1 rendered
    obtain ⟨part, among, renderedPart⟩ := renderEach_mem renderedEach inside
    have nonempty : members.isEmpty = false := by
      cases members with
      | nil => cases inside
      | cons => rfl
    rw [nonempty, if_neg (by decide)] at rendered
    cases rendered
    refine ((ih renderedPart).trans (infix_join (str ", ") among)).trans ?_
    exact ⟨str "\x7b ", str " \x7d", rfl⟩
  | field inside _ ih =>
    rw [render] at rendered
    obtain ⟨texts, renderedEach, rendered⟩ := Option.bind_eq_some_iff.1 rendered
    obtain ⟨part, among, renderedPart⟩ := renderEach_mem renderedEach inside
    cases rendered
    have comma : part <:+: part ++ str "," := (prefix_append ..).isInfix
    exact ((ih renderedPart).trans comma).trans (infix_renderTable indent (mem_map_of_mem among))
  | key =>
    rw [render] at rendered
    obtain ⟨valueStr, -, rendered⟩ := Option.bind_eq_some_iff.1 rendered
    obtain ⟨indexStr, renderedIndex, rendered⟩ := Option.bind_eq_some_iff.1 rendered
    rw [render] at renderedIndex
    cases renderedIndex
    split at rendered
    · rename_i named
      cases rendered
      rw [writeKey, named]
      exact ⟨[], str " = " ++ valueStr, by simp [Written.text]⟩
    · rename_i unnamed
      cases rendered
      rw [writeKey, unnamed]
      exact ⟨str "[", str "] = " ++ valueStr, by simp [Written.text]⟩
  | fieldValue _ ih =>
    rw [render] at rendered
    obtain ⟨valueStr, renderedValue, rendered⟩ := Option.bind_eq_some_iff.1 rendered
    obtain ⟨indexStr, -, rendered⟩ := Option.bind_eq_some_iff.1 rendered
    refine (ih renderedValue).trans ?_
    split at rendered
    · cases rendered
      exact (suffix_append ..).isInfix
    · cases rendered
      exact (suffix_append ..).isInfix

/-! ### The strings of a JSON document -/

mutual

/-- The strings and the keys of a value; a member that is null is not there in the emitted table. -/
def JsonValue.strings : JsonValue → List Bytes
  | .object members => memberStrings members
  | .array elements => elementStrings elements
  | .string value => [value]
  | _ => []

def memberStrings : List (Bytes × JsonValue) → List Bytes
  | [] => []
  | (_, .null) :: members => memberStrings members
  | (key, member) :: members => key :: (member.strings ++ memberStrings members)

def elementStrings : List JsonValue → List Bytes
  | [] => []
  | element :: elements => element.strings ++ elementStrings elements

end

def Has (slot : Slot) (node : Node) (value : Bytes) :
    Prop := ∃ written, Writes slot node value written

lemma has_stringLiteral {content : Bytes} :
    Has slot (.stringLiteral content) val ↔ val = content := by
  constructor
  · rintro ⟨_, writes⟩
    cases writes
    rfl
  · rintro rfl
    exact ⟨_, .literal⟩

lemma has_array {members : List Node} :
    Has slot (.array members) val ↔ ∃ mem ∈ members, Has .other mem val := by
  constructor
  · rintro ⟨_, writes⟩
    cases writes with
    | member inside writes => exact ⟨_, inside, _, writes⟩
  · rintro ⟨mem, inside, _, writes⟩
    exact ⟨_, .member inside writes⟩

lemma has_map {fields : List Node} :
    Has slot (.map fields) val ↔ ∃ field ∈ fields, Has .other field val := by
  constructor
  · rintro ⟨_, writes⟩
    cases writes with
    | field inside writes => exact ⟨_, inside, _, writes⟩
  · rintro ⟨field, inside, _, writes⟩
    exact ⟨_, .field inside writes⟩

lemma has_mapField {key : Bytes} {content : Node} :
    Has slot (.mapField (.stringLiteral key) content) val ↔ val = key ∨ Has .other content val := by
  constructor
  · rintro ⟨_, writes⟩
    cases writes with
    | key => exact .inl rfl
    | fieldValue writes => exact .inr ⟨_, writes⟩
  · rintro (rfl | ⟨_, writes⟩)
    · exact ⟨_, .key⟩
    · exact ⟨_, .fieldValue writes⟩

mutual

theorem has_jsonValueToLuau : ∀ (json : JsonValue) (slot : Slot) (val : Bytes),
    Has slot (jsonValueToLuau json) val ↔ val ∈ json.strings
  | .object members, slot, val => by
    rw [jsonValueToLuau, has_map, JsonValue.strings, ← has_jsonMembersToLuau members val]
    simp only [mem_map, mem_insertionSort, exists_exists_and_eq_and, has_mapField]
  | .array elements, slot, val => by
    rw [jsonValueToLuau, has_array, JsonValue.strings, ← has_jsonElementsToLuau elements val]
  | .string content, slot, val => by
    rw [jsonValueToLuau, has_stringLiteral, JsonValue.strings, mem_singleton]
  | .number _, _, _ => iff_of_false (fun ⟨_, writes⟩ => nomatch writes) not_mem_nil
  | .bool truth, _, _ => by
    cases truth with
    | true => exact iff_of_false (fun ⟨_, writes⟩ => nomatch writes) not_mem_nil
    | false => exact iff_of_false (fun ⟨_, writes⟩ => nomatch writes) not_mem_nil
  | .null, _, _ => iff_of_false (fun ⟨_, writes⟩ => nomatch writes) not_mem_nil

theorem has_jsonMembersToLuau : ∀ (members : List (Bytes × JsonValue)) (val : Bytes),
    (∃ field ∈ jsonMembersToLuau members, val = field.1 ∨ Has .other field.2 val) ↔
      val ∈ memberStrings members
  | [], val => by simp [jsonMembersToLuau, memberStrings]
  | (key, mem) :: members, val => by
    have rest := has_jsonMembersToLuau members val
    have inside := has_jsonValueToLuau mem .other val
    cases mem with
    | null => rwa [jsonMembersToLuau, memberStrings]
    | _ =>
      rw [jsonMembersToLuau, memberStrings, mem_cons, mem_append, ← rest, ← inside]
      · rw [exists_mem_cons_iff, or_assoc]
      all_goals nofun

theorem has_jsonElementsToLuau : ∀ (elements : List JsonValue) (val : Bytes),
    (∃ node ∈ jsonElementsToLuau elements, Has .other node val) ↔ val ∈ elementStrings elements
  | [], val => by simp [jsonElementsToLuau, elementStrings]
  | elem :: elements, val => by
    rw [jsonElementsToLuau, elementStrings, mem_append,
      ← has_jsonElementsToLuau elements val, ← has_jsonValueToLuau elem .other val]
    exact exists_mem_cons_iff ..

end

/-! ### The four sources -/

def ChainItem.envName : ChainItem → Option Bytes
  | .call (name :: _) => name
  | .propertyAccess name => some name
  | .elementAccess name => name
  | _ => none

/-- The strings are inlined in the emitted expression. -/
inductive Inlines : List Bytes → Node → Prop where
  | env {lookup : Bytes → Option Bytes} {item : ChainItem} {name value : Bytes} {node : Node} :
      interceptEnvChain lookup item = .ok node → item.envName = some name →
      lookup name = some value → Inlines [value] node
  | file {decoder : JsonDecoder} {read : Bytes → Option Bytes} {path data : Bytes} {node : Node} :
      interceptFileChain decoder (some read) (.call [some path]) = .ok node →
      hasJSONSuffix path = false → read path = some data → Inlines [data] node
  | json {decoder : JsonDecoder} {read : Bytes → Option Bytes} {path data rest : Bytes}
      {json : JsonValue} {node : Node} :
      interceptFileChain decoder (some read) (.call [some path]) = .ok node →
      hasJSONSuffix path = true → read path = some data →
      decoder.decode data = .ok (json, rest) → Inlines json.strings node
  | template {tagExp callee parts : Node} {head : Bytes} {spans : List Bytes}
      {args arguments : List Node} :
      transformTaggedTemplateExpression tagExp head spans args =
        .callExpression callee (parts :: arguments) → Inlines (head :: spans) parts

lemma envValueExpression_found {lookup : Bytes → Option Bytes} {name : Bytes}
    (found : lookup name = some val) : envValueExpression lookup name = .stringLiteral val := by
  rw [envValueExpression, found]

lemma interceptEnvChain_found {lookup : Bytes → Option Bytes} {item : ChainItem} {name : Bytes}
    (intercepted : interceptEnvChain lookup item = .ok node) (named : item.envName = some name)
    (found : lookup name = some val) : node = .stringLiteral val := by
  match item, named, intercepted with
  | .propertyAccess _, rfl, rfl => exact envValueExpression_found found
  | .elementAccess (some _), rfl, rfl => exact envValueExpression_found found
  | .call [some _], rfl, rfl => exact envValueExpression_found found
  | .call [some _, fallback], rfl, intercepted =>
    simp only [interceptEnvChain, found] at intercepted
    cases intercepted
    rfl

lemma jsonBytesToLuau_decoded {decoder : JsonDecoder} {data rest : Bytes} {json : JsonValue}
    (converted : jsonBytesToLuau decoder data = .ok node)
    (decoded : decoder.decode data = .ok (json, rest)) : node = jsonValueToLuau json := by
  simp only [jsonBytesToLuau, decoded] at converted
  split at converted
  · split at converted
    · nomatch converted
    · cases converted
      rfl
  · cases converted
    rfl

lemma Inlines.has {strings : List Bytes} (inlines : Inlines strings node) (slot : Slot)
    (val : Bytes) : Has slot node val ↔ val ∈ strings := by
  cases inlines with
  | env intercepted named found =>
    rw [interceptEnvChain_found intercepted named found, has_stringLiteral, mem_singleton]
  | file intercepted plain found =>
    simp only [interceptFileChain, resolveFileExpression, found, plain] at intercepted
    cases intercepted
    rw [has_stringLiteral, mem_singleton]
  | @json decoder read path data rest json node intercepted named found decoded =>
    have emitted : node = jsonValueToLuau json := by
      simp only [interceptFileChain, resolveFileExpression, found, named, if_true] at intercepted
      split at intercepted
      · cases intercepted
        rename_i converted
        exact jsonBytesToLuau_decoded converted decoded
      · nomatch intercepted
    rw [emitted, has_jsonValueToLuau]
  | template transformed =>
    cases transformed
    rw [has_array]
    simp [has_stringLiteral]

/-- Every inlined string has a text in the rendered expression, and the texts are those of inlined
strings; each has the value of its string exactly where the string renders faithfully. -/
theorem inlined_kept_iff {strings : List Bytes} {node : Node} (inlines : Inlines strings node)
    (slot : Slot) :
    (∀ value ∈ strings, ∃ written, Writes slot node value written) ∧
      ∀ value written, Writes slot node value written →
        value ∈ strings ∧ (written.value = some value ↔ rendersFaithfully value = true) ∧
        ∀ (env : Env) (indent : Nat) (text : Bytes), render env indent slot node = some text →
          written.text <:+: text :=
  ⟨fun value member => (inlines.has slot value).2 member, fun value written writes =>
    ⟨(inlines.has slot value).1 ⟨written, writes⟩, writes.value_iff,
      fun _ _ _ rendered => writes.infix rendered⟩⟩

theorem inlined_kept_apostrophe : Inlines [str "it's"] (.stringLiteral (str "it's")) ∧
      (Written.literal (str "\"it's\"")).value = some (str "it's") := by
  have inlines : Inlines [str "it's"] (.stringLiteral (str "it's")) :=
    @Inlines.env (fun _ => some (str "it's")) (.propertyAccess (str "NAME")) _ _ _ rfl rfl rfl
  have written : Writes .other (.stringLiteral (str "it's")) (str "it's")
      (.literal (str "\"it's\"")) := .literal
  exact ⟨inlines, ((inlined_kept_iff inlines .other).2 _ _ written).2.1.2 (by decide)⟩

/-- A path with a backslash in the environment becomes a literal for another string. -/
theorem inlined_changed : Inlines [str "C:\\new"] (.stringLiteral (str "C:\\new")) ∧
      Writes .other (.stringLiteral (str "C:\\new")) (str "C:\\new")
        (.literal (str "\"C:\\new\"")) ∧
      (Written.literal (str "\"C:\\new\"")).value = some (str "C:\new") ∧
      str "C:\new" ≠ str "C:\\new" := by
  have inlines : Inlines [str "C:\\new"] (.stringLiteral (str "C:\\new")) :=
    @Inlines.env (fun _ => some (str "C:\\new")) (.propertyAccess (str "HOME")) _ _ _ rfl rfl rfl
  exact ⟨inlines, .literal, by decide +kernel, by decide⟩

end Rotor.Transformer
