import WasmerNapi.Lib.Splice

/-!
# Lowering dynamic imports

`wasmerNapiLowerDynamicImports` and `wasmer_napi_compile_module` of `src/src/snapi_js.rs`: the
source of a function or a module is parsed, and every `import()` in it, in a module every
`import.meta` too, is cut out by its offsets and replaced. In a module the import and export
declarations are replaced as well, and what an export declares is lowered first.

The parser is not modelled: `Marked` is a text with its expressions marked in it, and
`Marked.Describes` says that a parse tree has those expressions, at the offsets they have in the
text. What the text is meant to become is `Marked.lowered`, by recursion on the marks. It is what
both functions give for exactly those texts in which no expression lies in the arguments of another,
`Marked.flat`.
-/

namespace WasmerNapi.HostJs.DynamicImports

open Splice
open List (not_mem_nil mem_cons append_assoc length_append mem_append pairwise_cons map_cons
  nil_append flatMap_cons filterMap_cons_some cons_append filterMap_append mem_singleton)

/-- UTF-16 code units. -/
abbrev Text := List UInt16

/-- A literal of the source: all of them are ASCII. -/
def units (s : String) : Text := s.toList.map fun c => c.toNat.toUInt16

/-! ## The parse tree -/

/-- What the traversal asks of a node that is no import expression. -/
inductive Kind where
  | function
  | await
  | forAwait
  | plain
  deriving DecidableEq

inductive Node where
  | other (kind : Kind) (start stop : ℕ) (children : List Node)
  | importExpression (start stop : ℕ) (source : Node) (options : Option Node)
  | importMeta (start stop : ℕ)

namespace Node

def start : Node → ℕ
  | other _ start _ _ => start
  | importExpression start _ _ _ => start
  | importMeta start _ => start

def stop : Node → ℕ
  | other _ _ stop _ => stop
  | importExpression _ stop _ _ => stop
  | importMeta _ stop => stop

/-- The values of its keys that are nodes, in the order of the keys. -/
def children : Node → List Node
  | other _ _ _ children => children
  | importExpression _ _ source options => source :: options.toList
  | importMeta _ _ => []

def isFunction : Node → Bool
  | other .function _ _ _ => true
  | _ => false

def isAwait : Node → Bool
  | other .await _ _ _ | other .forAwait _ _ _ => true
  | _ => false

mutual

def size : Node → ℕ
  | other _ _ _ children => 1 + sizes children
  | importExpression _ _ source none => 1 + source.size
  | importExpression _ _ source (some options) => 1 + (source.size + options.size)
  | importMeta _ _ => 1

def sizes : List Node → ℕ
  | [] => 0
  | node :: rest => node.size + sizes rest

end

end Node

/-! ## The traversal -/

/-- `while (pending.length !== 0)`: the next node is the one pushed last, and its children are
    pushed after it. `depth` counts the functions a node lies in. -/
def traverse {β : Type} (visit : β → Node → ℕ → β) : ℕ → List (Node × ℕ) → β → β
  | 0, _, acc => acc
  | _, [], acc => acc
  | fuel + 1, (node, depth) :: pending, acc =>
    let childDepth := depth + if node.isFunction then 1 else 0
    traverse visit fuel (node.children.reverse.map (·, childDepth) ++ pending)
      (visit acc node depth)

/-- The whole traversal, with the last of `nodes` on top of the stack. -/
def traverseAll {β : Type} (visit : β → Node → ℕ → β) (nodes : List Node) (acc : β) : β :=
  traverse visit (Node.sizes nodes) (nodes.reverse.map (·, 0)) acc

/-! ## Functions -/

/-- `__wasmerNapiTrackHostPromise(globalThis.process.__napi_dynamic_import(…))` -/
def dynamicImport (arguments : Text) : Text :=
  units "__wasmerNapiTrackHostPromise(globalThis.process.__napi_dynamic_import(" ++ arguments ++
    units "))"

inductive SyntaxError where
  | outsideSource
  deriving DecidableEq

/-- `dynamic import lies outside compiled function source` -/
def SyntaxError.message : SyntaxError → String
  | .outsideSource => "dynamic import lies outside compiled function source"

/-- What a node is in the source, where the parsed text has `offset` code units before it. -/
def sourceSlice (source : Text) (offset : ℕ) (node : Node) : Except SyntaxError Text :=
  let start : ℤ := node.start - offset
  let stop : ℤ := node.stop - offset
  if start < 0 ∨ stop < start ∨ stop > source.length then .error .outsideSource
  else .ok (slice source start stop)

/-- The replacement of an `import()` expression, where `referrer` is the file name in quotes. -/
def functionReplacement (source referrer : Text) (offset : ℕ) :
    Node → Except SyntaxError (Option (Replacement UInt16))
  | .importExpression start stop specifier options => do
    let specifier ← sourceSlice source offset specifier
    let options ← match options with
      | none => pure []
      | some options => do
        let text ← sourceSlice source offset options
        pure (units ", " ++ text)
    pure (some ⟨start - offset, stop - offset,
      dynamicImport (specifier ++ units ", " ++ referrer ++ options)⟩)
  | _ => pure none

/-- The expressions a function's source is searched for. -/
def pushImport (imports : List Node) (node : Node) (_depth : ℕ) : List Node :=
  match node with
  | .importExpression .. => imports ++ [node]
  | _ => imports

/-- `program` is the parse of `(function(names) {`, the source and `})`, and `offset` the length of
    the first of these. -/
def wasmerNapiLowerDynamicImports (offset : ℕ) (program : Node) (source referrer : Text) :
    Except SyntaxError Text := do
  let imports := traverseAll pushImport [program] []
  if imports.isEmpty then
    return source
  let replacements ← imports.mapM (functionReplacement source referrer offset)
  return spliceAll source (descending (replacements.filterMap id))

/-! ## Modules -/

structure Request where
  specifier : Text
  phase : ℕ
  attributes : List (Text × Text)
  deriving DecidableEq

inductive ImportSpecifier where
  | default (localName : Text)
  | namespace (localName : Text)
  | named (localName imported : Text)

/-- A statement of the module's body. The names of an exported declaration are those it binds. -/
inductive Statement where
  | plain (node : Node)
  | importDeclaration (start stop : ℕ) (source : Text) (attributes : List (Text × Text))
      (specifiers : List ImportSpecifier)
  | exportDefault (start stop : ℕ) (declaration : Node) (id : Option Text)
  | exportFrom (start stop : ℕ) (source : Text) (attributes : List (Text × Text))
      (specifiers : List (Text × Text))
  | exportDeclaration (start stop : ℕ) (declaration : Node) (names : List Text)
  | exportList (start stop : ℕ) (specifiers : List (Text × Text))
  | exportAll (start stop : ℕ) (source : Text) (attributes : List (Text × Text))
      (exported : Option Text)

namespace Statement

/-- Its range, when it is an import or export declaration. -/
def range : Statement → Option (ℕ × ℕ)
  | plain _ => none
  | importDeclaration start stop _ _ _ | exportDefault start stop _ _
  | exportFrom start stop _ _ _ | exportDeclaration start stop _ _
  | exportList start stop _ | exportAll start stop _ _ _ => some (start, stop)

/-- What an `export` declares. -/
def declaration : Statement → Option Node
  | exportDefault _ _ declaration _ | exportDeclaration _ _ declaration _ => some declaration
  | _ => none

/-- The node of the statement, which the traversal begins with. The keys of a declaration that have
    no expressions below them are left out. -/
def node : Statement → Node
  | plain node => node
  | importDeclaration start stop _ _ _ | exportFrom start stop _ _ _
  | exportList start stop _ | exportAll start stop _ _ _ => .other .plain start stop []
  | exportDefault start stop declaration _ | exportDeclaration start stop declaration _ =>
    .other .plain start stop [declaration]

def request : Statement → Option Request
  | importDeclaration _ _ source attributes _ | exportFrom _ _ source attributes _
  | exportAll _ _ source attributes _ => some ⟨source, 2, attributes⟩
  | _ => none

def exportNames : Statement → List Text
  | exportDefault .. => [units "default"]
  | exportFrom _ _ _ _ specifiers | exportList _ _ specifiers => specifiers.map Prod.snd
  | exportDeclaration _ _ _ names => names
  | exportAll _ _ _ _ exported => exported.toList
  | _ => []

end Statement

/-- `JSON.stringify`, of strings. -/
abbrev Stringify := Text → Text

section Bindings

variable (stringify : Stringify)

/-- `__imports[index]` -/
def imports (index : ℕ) : Text := units "__imports[" ++ units (toString index) ++ units "]"

def bindSpecifier (index : ℕ) : ImportSpecifier → Text
  | .default name => units "const " ++ name ++ units "=" ++ imports index ++ units ".default;"
  | .namespace name => units "const " ++ name ++ units "=" ++ imports index ++ units ";"
  | .named name imported =>
    units "const " ++ name ++ units "=" ++ imports index ++ units "[" ++ stringify imported ++
      units "];"

/-- `__exports[name]=value;` -/
def bindExport (exported value : Text) : Text :=
  units "__exports[" ++ stringify exported ++ units "]=" ++ value ++ units ";"

/-- The text an import or export declaration is replaced by, where `index` is that of its request
    and `lower` what becomes of what it declares. -/
def bindings (index : ℕ) (lower : Node → Text) : Statement → Option Text
  | .plain _ => none
  | .importDeclaration _ _ _ _ specifiers =>
    some (specifiers.flatMap (bindSpecifier stringify index))
  | .exportDefault _ _ declaration (some id) =>
    some (lower declaration ++ units "\n__exports.default=" ++ id ++ units ";")
  | .exportDefault _ _ declaration none =>
    some (units "__exports.default=(" ++ lower declaration ++ units ");")
  | .exportFrom _ _ _ _ specifiers =>
    some (specifiers.flatMap fun s =>
      bindExport stringify s.2 (imports index ++ units "[" ++ stringify s.1 ++ units "]"))
  | .exportDeclaration _ _ declaration names =>
    some (lower declaration ++ units "\n" ++ names.flatMap fun name =>
      bindExport stringify name name)
  | .exportList _ _ specifiers =>
    some (specifiers.flatMap fun s => bindExport stringify s.2 s.1)
  | .exportAll _ _ _ _ (some exported) => some (bindExport stringify exported (imports index))
  | .exportAll _ _ _ _ none =>
    some (units "for(const __key of Object.keys(" ++ imports index ++
      units "))if(__key!=='default')__exports[__key]=" ++ imports index ++ units "[__key];")

end Bindings

/-- How many requests there are once the statement has made its own. -/
def nextIndex (index : ℕ) (s : Statement) : ℕ := index + s.request.toList.length

/-- The replacement of an import or export declaration. -/
def moduleReplacement (stringify : Stringify) (lower : Node → Text) (index : ℕ) (s : Statement) :
    Option (Replacement UInt16) :=
  s.range.bind fun range =>
    (bindings stringify index lower s).map fun text => ⟨range.1, range.2, text⟩

def moduleReplacements (stringify : Stringify) (lower : Node → Text) :
    ℕ → List Statement → List (Replacement UInt16)
  | _, [] => []
  | index, s :: body =>
    (moduleReplacement stringify lower index s).toList ++
      moduleReplacements stringify lower (nextIndex index s) body

/-- What a node is in the source. -/
def nodeText (source : Text) (node : Node) : Text := slice source node.start node.stop

/-- The replacement of an `import()` or an `import.meta`. -/
def syntaxReplacement (source referrer : Text) : Node → Option (Replacement UInt16)
  | .importExpression start stop specifier options =>
    let options := match options with
      | none => []
      | some options => units ", " ++ nodeText source options
    some ⟨start, stop,
      dynamicImport (nodeText source specifier ++ units "," ++ referrer ++ options)⟩
  | .importMeta start stop => some ⟨start, stop, units "__importMeta"⟩
  | .other .. => none

/-- `syntaxReplacements` and `hasTopLevelAwait`. -/
structure Found where
  replacements : List (Replacement UInt16) := []
  hasTopLevelAwait : Bool := false

def visitModule (source referrer : Text) (found : Found) (node : Node) (depth : ℕ) : Found where
  replacements := found.replacements ++ (syntaxReplacement source referrer node).toList
  hasTopLevelAwait := found.hasTopLevelAwait || (depth == 0 && node.isAwait)

/-- The text of a node with the replacements that lie within it. -/
def lower (source : Text) (syntaxReplacements : List (Replacement UInt16)) (node : Node) : Text :=
  let nested := syntaxReplacements.filter fun r =>
    (node.start : ℤ) ≤ r.start ∧ r.stop ≤ (node.stop : ℤ)
  spliceAll (nodeText source node) ((descending nested).map fun r => r.shift node.start)

/-- A hashbang becomes a comment. -/
def commentHashbang (source : Text) : Text :=
  if (units "#!").isPrefixOf source then units "//" ++ source.drop 2 else source

structure Compiled where
  requests : List Request
  exportNames : List Text
  hasTopLevelAwait : Bool
  body : Text
  deriving DecidableEq

/-- The source of the function that runs the module's body. -/
def Compiled.constructorBody (c : Compiled) : Text :=
  units (if c.hasTopLevelAwait then "return async function" else "return function") ++
    units "(__imports,__exports,__importMeta)\x7b'use strict';\n" ++ c.body ++ units "\n\x7d"

/-- `body` is the parse of the source as a module, once `commentHashbang` is done with it. -/
def wasmer_napi_compile_module (stringify : Stringify) (body : List Statement)
    (source referrer : Text) : Compiled :=
  let source := commentHashbang source
  let found := traverseAll (visitModule source referrer) (body.map Statement.node) {}
  let replacements := moduleReplacements stringify (lower source found.replacements) 0 body
  let standalone := unenclosed replacements found.replacements
  { requests := body.filterMap Statement.request
    exportNames := (body.flatMap Statement.exportNames).foldl
      (fun names name => if names.contains name then names else names ++ [name]) []
    hasTopLevelAwait := found.hasTopLevelAwait
    body := spliceApart source (source.length + 1) (descending standalone) }

/-! ## A text with its expressions marked -/

/-- The parts of a text in order. In a script there is no `import.meta`. What stands between the
    word `import` and the specifier is the `head` of an `import()`, and what stands after its last
    argument the `tail`. -/
inductive Marked (isModule : Bool) where
  | nil
  | unit (c : UInt16) (rest : Marked isModule)
  | importMeta (inModule : isModule = true) (tail : Text) (rest : Marked isModule)
  | importCall (head : Text) (specifier : Marked isModule) (tail : Text) (rest : Marked isModule)
  | importCallWith (head : Text) (specifier : Marked isModule) (middle : Text)
      (options : Marked isModule) (tail : Text) (rest : Marked isModule)

/-- How a function or a module writes the call: what stands between the specifier and the file
    name. -/
structure Dialect where
  separator : Text
  referrer : Text

/-- The lowered form of an `import()`. -/
def Dialect.call (l : Dialect) (specifier : Text) (options : Option Text) : Text :=
  dynamicImport (specifier ++ l.separator ++ l.referrer ++ (options.map (units ", " ++ ·)).getD [])

def functionDialect (referrer : Text) : Dialect := ⟨units ", ", referrer⟩

def moduleDialect (referrer : Text) : Dialect := ⟨units ",", referrer⟩

namespace Marked

variable {isModule : Bool}

/-- The text as it is written. -/
def text : Marked isModule → Text
  | nil => []
  | unit c rest => c :: rest.text
  | importMeta _ tail rest => units "import" ++ tail ++ rest.text
  | importCall head specifier tail rest =>
    units "import" ++ head ++ specifier.text ++ tail ++ rest.text
  | importCallWith head specifier middle options tail rest =>
    units "import" ++ head ++ specifier.text ++ middle ++ options.text ++ tail ++ rest.text

/-- The text with every expression replaced by its lowered form, its arguments lowered first. -/
def lowered (l : Dialect) : Marked isModule → Text
  | nil => []
  | unit c rest => c :: rest.lowered l
  | importMeta _ _ rest => units "__importMeta" ++ rest.lowered l
  | importCall _ specifier _ rest => l.call (specifier.lowered l) none ++ rest.lowered l
  | importCallWith _ specifier _ options _ rest =>
    l.call (specifier.lowered l) (some (options.lowered l)) ++ rest.lowered l

/-- It has no expressions. -/
def isPlain : Marked isModule → Bool
  | nil => true
  | unit _ rest => rest.isPlain
  | _ => false

/-- No expression lies in the arguments of another. -/
def isFlat : Marked isModule → Bool
  | nil => true
  | unit _ rest | importMeta _ _ rest => rest.isFlat
  | importCall _ specifier _ rest => specifier.isPlain && rest.isFlat
  | importCallWith _ specifier _ options _ rest =>
    specifier.isPlain && options.isPlain && rest.isFlat

/-! ### The parts as segments -/

/-- The parts of the text, each outermost expression with the text it is replaced by when its
    arguments are taken as they are written. -/
def segments (l : Dialect) : Marked isModule → List (Segment UInt16)
  | nil => []
  | unit c rest => ⟨[c], none⟩ :: rest.segments l
  | importMeta _ tail rest =>
    ⟨units "import" ++ tail, some (units "__importMeta")⟩ :: rest.segments l
  | importCall head specifier tail rest =>
    ⟨units "import" ++ head ++ specifier.text ++ tail, some (l.call specifier.text none)⟩ ::
      rest.segments l
  | importCallWith head specifier middle options tail rest =>
    ⟨units "import" ++ head ++ specifier.text ++ middle ++ options.text ++ tail,
      some (l.call specifier.text (some options.text))⟩ :: rest.segments l

theorem raws_segments (l : Dialect) (m : Marked isModule) :
    Segment.raws (m.segments l) = m.text := by
  induction m with
  | nil => rfl
  | unit c rest ih => simp [segments, text, ih]
  | importMeta h tail rest ih => simp [segments, text, ih]
  | importCall head specifier tail rest _ ih => simp [segments, text, ih]
  | importCallWith head specifier middle options tail rest _ _ ih => simp [segments, text, ih]

theorem proper_segments (l : Dialect) (m : Marked isModule) : Segment.Proper (m.segments l) := by
  have himport : units "import" ≠ [] := by decide
  induction m with
  | nil => exact fun s hs => absurd hs not_mem_nil
  | unit c rest ih =>
    intro s hs
    rcases mem_cons.mp hs with rfl | hs
    · simp
    · exact ih s hs
  | importMeta h tail rest ih =>
    intro s hs
    rcases mem_cons.mp hs with rfl | hs
    · simp [himport]
    · exact ih s hs
  | importCall head specifier tail rest _ ih =>
    intro s hs
    rcases mem_cons.mp hs with rfl | hs
    · simp [himport]
    · exact ih s hs
  | importCallWith head specifier middle options tail rest _ _ ih =>
    intro s hs
    rcases mem_cons.mp hs with rfl | hs
    · simp [himport]
    · exact ih s hs

end Marked

/-! ## Where a text is not lowered -/

/-- They are alike up to a place where one has the first letter of `import` and the other that of a
    lowered form. -/
def Differ (a b : Text) : Prop :=
  ∃ common x y, a = common ++ 0x69 :: x ∧ b = common ++ 0x5f :: y

namespace Differ

theorem ne {a b : Text} (h : Differ a b) : a ≠ b := by
  obtain ⟨common, x, y, rfl, rfl⟩ := h
  simp

theorem prepend {a b : Text} (h : Differ a b) (before : Text) :
    Differ (before ++ a) (before ++ b) := by
  obtain ⟨common, x, y, rfl, rfl⟩ := h
  exact ⟨before ++ common, x, y, by simp, by simp⟩

theorem append {a b : Text} (h : Differ a b) (after after' : Text) :
    Differ (a ++ after) (b ++ after') := by
  obtain ⟨common, x, y, rfl, rfl⟩ := h
  exact ⟨common, x ++ after, y ++ after', by simp, by simp⟩

theorem of_append {a b : Text} (x y : Text) :
    Differ (units "import" ++ x) (units "__importMeta" ++ y) ∧
      Differ (units "import" ++ x) (dynamicImport a ++ b) :=
  ⟨⟨[], _, _, rfl, rfl⟩, ⟨[], _, _, rfl, rfl⟩⟩

end Differ

theorem Dialect.call_differ_specifier (l : Dialect) {a b : Text} (h : Differ a b)
    (options options' : Option Text) : Differ (l.call a options) (l.call b options') := by
  simp only [Dialect.call, dynamicImport, append_assoc]
  exact (h.append _ _).prepend _

theorem Dialect.call_differ_options (l : Dialect) {a b : Text} (h : Differ a b)
    (specifier : Text) : Differ (l.call specifier (some a)) (l.call specifier (some b)) := by
  simp only [Dialect.call, dynamicImport, append_assoc, Option.map_some, Option.getD_some]
  exact (h.append _ _).prepend _ |>.prepend _ |>.prepend _ |>.prepend _ |>.prepend _

namespace Marked

variable {isModule : Bool} (l : Dialect) {m : Marked isModule}

theorem text_of_isPlain (h : m.isPlain) :
    m.text = m.lowered l := by
  induction m with
  | nil => rfl
  | unit c rest ih => rw [text, lowered, ih h]
  | importMeta _ _ _ _ => cases h
  | importCall _ _ _ _ _ _ => cases h
  | importCallWith _ _ _ _ _ _ _ _ _ => cases h

theorem text_differ (h : m.isPlain = false) :
    Differ m.text (m.lowered l) := by
  induction m with
  | nil => cases h
  | unit c rest ih => exact (ih h).prepend [c]
  | importMeta _ tail rest _ =>
    rw [text, lowered, append_assoc]
    exact (Differ.of_append (tail ++ rest.text) (rest.lowered l) (a := []) (b := [])).1
  | importCall head specifier tail rest _ _ =>
    rw [text, lowered, append_assoc, append_assoc, append_assoc]
    exact (Differ.of_append _ []).2
  | importCallWith head specifier middle options tail rest _ _ _ =>
    rw [text, lowered, append_assoc, append_assoc, append_assoc, append_assoc,
      append_assoc]
    exact (Differ.of_append _ []).2

/-- What becomes of it when only the outermost expressions are replaced. -/
theorem results_of_isFlat (h : m.isFlat) :
    Segment.results (m.segments l) = m.lowered l := by
  induction m with
  | nil => rfl
  | unit c rest ih =>
    rw [segments, Segment.results_cons, ih h]
    rfl
  | importMeta _ tail rest ih =>
    rw [segments, Segment.results_cons, ih h]
    rfl
  | importCall head specifier tail rest _ ih =>
    obtain ⟨hs, hrest⟩ := Bool.and_eq_true_iff.mp h
    rw [segments, Segment.results_cons, ih hrest, text_of_isPlain l hs]
    rfl
  | importCallWith head specifier middle options tail rest _ _ ih =>
    obtain ⟨hargs, hrest⟩ := Bool.and_eq_true_iff.mp h
    obtain ⟨hs, ho⟩ := Bool.and_eq_true_iff.mp hargs
    rw [segments, Segment.results_cons, ih hrest, text_of_isPlain l hs, text_of_isPlain l ho]
    rfl

/-- The lowered form of the first expression that has another in its arguments is not what it is
    meant to be, whatever follows it. -/
theorem call_differ (l : Dialect) {specifier : Marked isModule} (h : specifier.isPlain = false)
    (x y : Text) :
    Differ (l.call specifier.text none ++ x) (l.call (specifier.lowered l) none ++ y) :=
  (l.call_differ_specifier (text_differ l h) _ _).append _ _

theorem callWith_differ (l : Dialect) {specifier options : Marked isModule}
    (h : (specifier.isPlain && options.isPlain) = false) (x y : Text) :
    Differ (l.call specifier.text (some options.text) ++ x)
      (l.call (specifier.lowered l) (some (options.lowered l)) ++ y) := by
  cases hs : specifier.isPlain with
  | false => exact (l.call_differ_specifier (text_differ l hs) _ _).append _ _
  | true =>
    rw [hs, Bool.true_and] at h
    rw [text_of_isPlain l hs]
    exact (l.call_differ_options (text_differ l h) _).append _ _

theorem results_differ (h : m.isFlat = false) :
    Differ (Segment.results (m.segments l)) (m.lowered l) := by
  induction m with
  | nil => cases h
  | unit c rest ih => exact (ih h).prepend [c]
  | importMeta _ tail rest ih => exact (ih h).prepend (units "__importMeta")
  | importCall head specifier tail rest _ ih =>
    rw [isFlat, Bool.and_eq_false_iff] at h
    rw [segments, Segment.results_cons, lowered]
    rcases Bool.eq_false_or_eq_true specifier.isPlain with hs | hs
    · rw [Segment.result, Option.getD_some, text_of_isPlain l hs]
      exact (ih (h.resolve_left (by rw [hs]; decide))).prepend _
    · exact call_differ l hs _ _
  | importCallWith head specifier middle options tail rest _ _ ih =>
    rw [isFlat, Bool.and_eq_false_iff] at h
    rw [segments, Segment.results_cons, lowered]
    rcases Bool.eq_false_or_eq_true (specifier.isPlain && options.isPlain) with hargs | hargs
    · obtain ⟨hs, ho⟩ := Bool.and_eq_true_iff.mp hargs
      rw [Segment.result, Option.getD_some, text_of_isPlain l hs, text_of_isPlain l ho]
      exact (ih (h.resolve_left (by rw [hargs]; decide))).prepend _
    · exact callWith_differ l hargs _ _

/-! ### All expressions, one within another -/

/-- The replacements of all its expressions, where it begins at `base`, in the order in which they
    begin. The arguments of each are as they are written. -/
def replacements (l : Dialect) : ℕ → Marked isModule → List (Replacement UInt16)
  | _, nil => []
  | base, unit _ rest => rest.replacements l (base + 1)
  | base, importMeta _ tail rest =>
    let stop := base + (units "import" ++ tail).length
    ⟨base, stop, units "__importMeta"⟩ :: rest.replacements l stop
  | base, importCall head specifier tail rest =>
    let stop := base + (units "import" ++ head ++ specifier.text ++ tail).length
    ⟨base, stop, l.call specifier.text none⟩ ::
      (specifier.replacements l (base + (units "import" ++ head).length) ++
        rest.replacements l stop)
  | base, importCallWith head specifier middle options tail rest =>
    let stop := base +
      (units "import" ++ head ++ specifier.text ++ middle ++ options.text ++ tail).length
    ⟨base, stop, l.call specifier.text (some options.text)⟩ ::
      (specifier.replacements l (base + (units "import" ++ head).length) ++
        options.replacements l
          (base + (units "import" ++ head ++ specifier.text ++ middle).length) ++
        rest.replacements l stop)

theorem replacements_of_isPlain (h : m.isPlain) (base : ℕ) :
    m.replacements l base = [] := by
  induction m generalizing base with
  | nil => rfl
  | unit c rest ih => exact ih h (base + 1)
  | importMeta _ _ _ _ => cases h
  | importCall _ _ _ _ _ _ => cases h
  | importCallWith _ _ _ _ _ _ _ _ _ => cases h

theorem replacements_of_isFlat (h : m.isFlat) (base : ℕ) :
    m.replacements l base = Segment.replacements base (m.segments l) := by
  induction m generalizing base with
  | nil => rfl
  | unit c rest ih => exact ih h (base + 1)
  | importMeta _ tail rest ih =>
    rw [replacements, segments, Segment.replacements, ih h]
    rfl
  | importCall head specifier tail rest _ ih =>
    obtain ⟨hs, hrest⟩ := Bool.and_eq_true_iff.mp h
    rw [replacements, segments, Segment.replacements, ih hrest, replacements_of_isPlain l hs]
    rfl
  | importCallWith head specifier middle options tail rest _ _ ih =>
    obtain ⟨hargs, hrest⟩ := Bool.and_eq_true_iff.mp h
    obtain ⟨hs, ho⟩ := Bool.and_eq_true_iff.mp hargs
    rw [replacements, segments, Segment.replacements, ih hrest, replacements_of_isPlain l hs,
      replacements_of_isPlain l ho]
    rfl

/-- Where the replacements are. -/
theorem within_replacements {base : ℕ} {r : Replacement UInt16} (hr : r ∈ m.replacements l base) :
    (base : ℤ) ≤ r.start ∧ r.start < r.stop ∧ r.stop ≤ (base + m.text.length : ℕ) := by
  have himport : (units "import").length = 6 := rfl
  induction m generalizing base with
  | nil => exact absurd hr not_mem_nil
  | unit c rest ih =>
    have h := ih hr
    simp only [text, List.length_cons]
    omega
  | importMeta _ tail rest ih =>
    simp only [text, length_append]
    rcases mem_cons.mp hr with rfl | hr
    · simp only [length_append]
      omega
    · have h := ih hr
      simp only [length_append] at h
      omega
  | importCall head specifier tail rest ihs ih =>
    simp only [text, length_append]
    rcases mem_cons.mp hr with rfl | hr
    · simp only [length_append]
      omega
    · rcases mem_append.mp hr with hr | hr
      · have h := ihs hr
        simp only [length_append] at h
        omega
      · have h := ih hr
        simp only [length_append] at h
        omega
  | importCallWith head specifier middle options tail rest ihs iho ih =>
    simp only [text, length_append]
    rcases mem_cons.mp hr with rfl | hr
    · simp only [length_append]
      omega
    · rcases mem_append.mp hr with hr | hr
      · rcases mem_append.mp hr with hr | hr
        · have h := ihs hr
          simp only [length_append] at h
          omega
        · have h := iho hr
          simp only [length_append] at h
          omega
      · have h := ih hr
        simp only [length_append] at h
        omega

/-- Those of what comes later begin later. -/
theorem replacements_lt (l : Dialect) {m m' : Marked isModule} {base base' : ℕ}
    (h : base + m.text.length ≤ base') :
    ∀ a ∈ m.replacements l base, ∀ b ∈ m'.replacements l base', a.start < b.start := by
  intro a ha b hb
  have ha := within_replacements l ha
  have hb := within_replacements l hb
  omega

theorem lt_replacements {base base' : ℕ} (h : base < base') :
    ∀ r ∈ m.replacements l base', (base : ℤ) < r.start := by
  intro r hr
  have hr := within_replacements l hr
  omega

theorem pairwise_replacements (m : Marked isModule) (base : ℕ) :
    (m.replacements l base).Pairwise fun a b => a.start < b.start := by
  have himport : (units "import").length = 6 := rfl
  induction m generalizing base with
  | nil => exact List.Pairwise.nil
  | unit c rest ih => exact ih (base + 1)
  | importMeta _ tail rest ih =>
    refine pairwise_cons.mpr ⟨lt_replacements l ?_, ih _⟩
    simp only [length_append]
    omega
  | importCall head specifier tail rest ihs ih =>
    refine pairwise_cons.mpr ⟨List.forall_mem_append.mpr ⟨lt_replacements l ?_,
      lt_replacements l ?_⟩, List.pairwise_append.mpr ⟨ihs _, ih _, replacements_lt l ?_⟩⟩ <;>
    · simp only [length_append]
      omega
  | importCallWith head specifier middle options tail rest ihs iho ih =>
    refine pairwise_cons.mpr ⟨List.forall_mem_append.mpr ⟨List.forall_mem_append.mpr
      ⟨lt_replacements l ?_, lt_replacements l ?_⟩, lt_replacements l ?_⟩,
      List.pairwise_append.mpr ⟨List.pairwise_append.mpr ⟨ihs _, iho _, replacements_lt l ?_⟩,
        ih _, ?_⟩⟩
    · simp only [length_append]
      omega
    · simp only [length_append]
      omega
    · simp only [length_append]
      omega
    · simp only [length_append]
      omega
    · intro a ha
      rcases mem_append.mp ha with ha | ha
      · refine replacements_lt l ?_ a ha
        simp only [length_append]
        omega
      · refine replacements_lt l ?_ a ha
        simp only [length_append]
        omega

theorem mk_shift (start stop k : ℕ) (text : Text) :
    (⟨(start + k : ℕ), (stop + k : ℕ), text⟩ : Replacement UInt16).shift k =
      ⟨start, stop, text⟩ := by
  simp [Replacement.shift]

theorem shift_replacements (m : Marked isModule) (base k : ℕ) :
    (m.replacements l (base + k)).map (fun r => r.shift k) = m.replacements l base := by
  induction m generalizing base with
  | nil => rfl
  | unit c rest ih => rw [replacements, replacements, Nat.add_right_comm base k, ih]
  | importMeta _ tail rest ih =>
    simp only [replacements, map_cons]
    rw [Nat.add_right_comm base k, mk_shift, ih]
  | importCall head specifier tail rest ihs ih =>
    simp only [replacements, map_cons, List.map_append]
    rw [Nat.add_right_comm base k, Nat.add_right_comm base k, mk_shift, ihs, ih]
  | importCallWith head specifier middle options tail rest ihs iho ih =>
    simp only [replacements, map_cons, List.map_append]
    rw [Nat.add_right_comm base k, Nat.add_right_comm base k, Nat.add_right_comm base k, mk_shift,
      ihs, iho, ih]

/-! ### Splicing them all in -/

theorem splice_of_isFlat (h : m.isFlat) (before after : Text) :
    spliceBack (m.replacements l before.length) (before ++ (m.text ++ after)) =
      before ++ (m.lowered l ++ after) := by
  rw [replacements_of_isFlat l h, ← raws_segments l m, Segment.spliceBack_replacements,
    results_of_isFlat l h]

/-- A call with nothing lowered in its arguments, before a text that is not lowered right. -/
theorem splice_call {before raw call rest : Text} {after t : Text}
    {rs : List (Replacement UInt16)}
    (hrs : spliceBack rs (before ++ (raw ++ (rest ++ after))) = before ++ (raw ++ t)) :
    spliceBack (⟨before.length, (before.length + raw.length : ℕ), call⟩ :: rs)
      (before ++ (raw ++ (rest ++ after))) = before ++ (call ++ t) := by
  rw [spliceBack_cons, hrs, splice_append _ _ _ _ rfl (by push_cast; rfl)]

/-- Whatever is lowered in the arguments of a call, the call is written over the beginning of it,
    with the arguments as they were. -/
theorem splice_outer {before rest call : Text} {stop : ℤ} {rs : List (Replacement UInt16)}
    (hrs : ∀ r ∈ rs, (before.length : ℤ) < r.start) :
    ∃ rest', spliceBack (⟨before.length, stop, call⟩ :: rs) (before ++ rest) =
      before ++ (call ++ rest') := by
  obtain ⟨changed, hchanged⟩ : ∃ changed, spliceBack rs (before ++ rest) = before ++ changed :=
    spliceBack_eq_append fun r hr => (hrs r hr).le
  rw [spliceBack_cons, hchanged]
  exact splice_append_left _ _ _ rfl

/-- Otherwise what is given is wrong, and from the first expression on that lies in another: the
    ranges of those around it are no longer where they were. -/
theorem splice_differ (h : m.isFlat = false) (before after : Text) :
    ∃ t, spliceBack (m.replacements l before.length) (before ++ (m.text ++ after)) = before ++ t ∧
      Differ t (m.lowered l) := by
  induction m generalizing before with
  | nil => cases h
  | unit c rest ih =>
    obtain ⟨t, ht, hd⟩ := ih h (before ++ [c])
    refine ⟨c :: t, ?_, hd.prepend [c]⟩
    simpa [replacements, text] using ht
  | importMeta _ tail rest ih =>
    obtain ⟨t, ht, hd⟩ := ih h (before ++ (units "import" ++ tail))
    refine ⟨units "__importMeta" ++ t, ?_, hd.prepend _⟩
    rw [length_append, append_assoc before, append_assoc before] at ht
    rw [text, append_assoc (units "import" ++ tail)]
    exact splice_call ht
  | importCall head specifier tail rest _ ih =>
    rw [isFlat, Bool.and_eq_false_iff] at h
    rw [text, append_assoc _ rest.text]
    rcases Bool.eq_false_or_eq_true specifier.isPlain with hs | hs
    · obtain ⟨t, ht, hd⟩ := ih (h.resolve_left (by rw [hs]; decide))
        (before ++ (units "import" ++ head ++ specifier.text ++ tail))
      refine ⟨l.call specifier.text none ++ t, ?_, ?_⟩
      · rw [length_append, append_assoc before, append_assoc before] at ht
        rw [replacements, replacements_of_isPlain l hs, nil_append]
        exact splice_call ht
      · rw [lowered, text_of_isPlain l hs]
        exact hd.prepend _
    · obtain ⟨rest', hrest⟩ := splice_outer (pairwise_cons.mp (pairwise_replacements l
        (importCall head specifier tail rest) before.length)).1
      exact ⟨_, hrest, call_differ l hs _ _⟩
  | importCallWith head specifier middle options tail rest _ _ ih =>
    rw [isFlat, Bool.and_eq_false_iff] at h
    rw [text, append_assoc _ rest.text]
    rcases Bool.eq_false_or_eq_true (specifier.isPlain && options.isPlain) with hargs | hargs
    · obtain ⟨hs, ho⟩ := Bool.and_eq_true_iff.mp hargs
      obtain ⟨t, ht, hd⟩ := ih (h.resolve_left (by rw [hargs]; decide))
        (before ++ (units "import" ++ head ++ specifier.text ++ middle ++ options.text ++ tail))
      refine ⟨l.call specifier.text (some options.text) ++ t, ?_, ?_⟩
      · rw [length_append, append_assoc before, append_assoc before] at ht
        rw [replacements, replacements_of_isPlain l hs, replacements_of_isPlain l ho,
          nil_append, nil_append]
        exact splice_call ht
      · rw [lowered, text_of_isPlain l hs, text_of_isPlain l ho]
        exact hd.prepend _
    · obtain ⟨rest', hrest⟩ := splice_outer (pairwise_cons.mp (pairwise_replacements l
        (importCallWith head specifier middle options tail rest) before.length)).1
      exact ⟨_, hrest, callWith_differ l hargs _ _⟩

end Marked

/-! ## What the traversal finds -/

namespace Node

mutual

/-- The expressions in a node that lie in no other, the last child's first. -/
def outermost : Node → List Node
  | other _ _ _ children => outermostAll children
  | importExpression start stop source options => [importExpression start stop source options]
  | importMeta start stop => [importMeta start stop]

def outermostAll : List Node → List Node
  | [] => []
  | node :: rest => outermostAll rest ++ node.outermost

end

mutual

/-- All of them, in the order in which they come off the stack. -/
def expressions : Node → List Node
  | other _ _ _ children => expressionsAll children
  | importExpression start stop source none =>
    importExpression start stop source none :: source.expressions
  | importExpression start stop source (some options) =>
    importExpression start stop source (some options) ::
      (options.expressions ++ source.expressions)
  | importMeta start stop => [importMeta start stop]

def expressionsAll : List Node → List Node
  | [] => []
  | node :: rest => expressionsAll rest ++ node.expressions

end

theorem expressionsAll_eq (nodes : List Node) :
    expressionsAll nodes = nodes.reverse.flatMap expressions := by
  induction nodes with
  | nil => rfl
  | cons node rest ih => simp [expressionsAll, ih]

theorem outermostAll_eq (nodes : List Node) :
    outermostAll nodes = nodes.reverse.flatMap outermost := by
  induction nodes with
  | nil => rfl
  | cons node rest ih => simp [outermostAll, ih]

theorem outermostAll_append (a b : List Node) :
    outermostAll (a ++ b) = outermostAll b ++ outermostAll a := by
  rw [outermostAll_eq, outermostAll_eq, outermostAll_eq, List.reverse_append, List.flatMap_append]

mutual

theorem expressions_eq : ∀ node : Node,
    node.expressions = node.outermost.flatMap expressions
  | other _ _ _ children => by
    rw [expressions, outermost]
    exact expressionsAll_eq_outermostAll children
  | importExpression _ _ _ _ => by simp [outermost]
  | importMeta _ _ => by simp [outermost]

theorem expressionsAll_eq_outermostAll : ∀ nodes : List Node,
    expressionsAll nodes = (outermostAll nodes).flatMap expressions
  | [] => rfl
  | node :: rest => by
    rw [expressionsAll, outermostAll, List.flatMap_append, expressionsAll_eq_outermostAll rest,
      ← expressions_eq node]

end

theorem sizes_eq (nodes : List Node) : sizes nodes = (nodes.map size).sum := by
  induction nodes with
  | nil => rfl
  | cons node rest ih => simp [sizes, ih]

theorem size_eq (node : Node) : node.size = 1 + (node.children.map size).sum := by
  cases node with
  | other _ _ _ nodes => rw [size, sizes_eq, Node.children]
  | importExpression _ _ source options => cases options <;> simp [size, children]
  | importMeta _ _ => rfl

end Node

/-- What a traversal collects from the nodes it visits: `f`, of each of the expressions. -/
theorem traverse_eq {β γ : Type} {visit : β → Node → ℕ → β} {get : β → List γ}
    {f : Node → List γ} (hvisit : ∀ acc node depth, get (visit acc node depth) = get acc ++ f node)
    (hother : ∀ kind start stop children, f (.other kind start stop children) = [])
    {fuel : ℕ} {pending : List (Node × ℕ)} {acc : β}
    (hfuel : (pending.map fun p => p.1.size).sum ≤ fuel) :
    get (traverse visit fuel pending acc) =
      get acc ++ pending.flatMap fun p => p.1.expressions.flatMap f := by
  induction fuel generalizing pending acc with
  | zero =>
    cases pending with
    | nil => simp [traverse]
    | cons p pending =>
      rw [map_cons, List.sum_cons, Node.size_eq] at hfuel
      omega
  | succ fuel ih =>
    cases pending with
    | nil => simp [traverse]
    | cons p pending =>
      obtain ⟨node, depth⟩ := p
      -- a node is taken off, and its children put in its place
      have hchildren : node.expressions.flatMap f =
          f node ++ node.children.reverse.flatMap fun child => child.expressions.flatMap f := by
        rw [← List.flatMap_assoc]
        cases node with
        | other kind start stop children =>
          rw [hother, Node.expressions, Node.expressionsAll_eq, Node.children, nil_append]
        | importExpression start stop source options =>
          cases options <;> simp [Node.expressions, Node.children]
        | importMeta start stop => simp [Node.expressions, Node.children]
      rw [traverse, ih, hvisit, List.flatMap_append, List.flatMap_map, flatMap_cons,
        hchildren, append_assoc, append_assoc]
      simp only [map_cons, List.sum_cons] at hfuel
      rw [Node.size_eq] at hfuel
      rw [List.map_append, List.sum_append, List.map_map]
      have hsum : ((node.children.reverse.map fun child => child.size)).sum =
          (node.children.map Node.size).sum := by
        rw [List.map_reverse, List.sum_reverse]
      simp only [Function.comp_def] at hsum ⊢
      omega

theorem traverseAll_eq {β γ : Type} {visit : β → Node → ℕ → β} {get : β → List γ}
    {f : Node → List γ} (hvisit : ∀ acc node depth, get (visit acc node depth) = get acc ++ f node)
    (hother : ∀ kind start stop children, f (.other kind start stop children) = [])
    (nodes : List Node) (acc : β) :
    get (traverseAll visit nodes acc) = get acc ++ (Node.expressionsAll nodes).flatMap f := by
  rw [traverseAll, traverse_eq hvisit hother, Node.expressionsAll_eq, List.flatMap_map,
    List.flatMap_assoc]
  rw [Node.sizes_eq, List.map_map, Function.comp_def, List.map_reverse, List.sum_reverse]

/-- What replaces an expression, in either dialect. -/
def replaceNode (l : Dialect) (source : Text) (offset : ℕ) : Node → Option (Replacement UInt16)
  | .importExpression start stop specifier options =>
    some ⟨start - offset, stop - offset,
      l.call (slice source (specifier.start - offset) (specifier.stop - offset))
        (options.map fun o => slice source (o.start - offset) (o.stop - offset))⟩
  | .importMeta start stop => some ⟨start - offset, stop - offset, units "__importMeta"⟩
  | .other .. => none

theorem syntaxReplacement_eq (source referrer : Text) (node : Node) :
    syntaxReplacement source referrer node =
      replaceNode (moduleDialect referrer) source 0 node := by
  cases node with
  | other _ _ _ _ => rfl
  | importExpression _ _ _ options =>
    cases options <;> simp [syntaxReplacement, replaceNode, Dialect.call, moduleDialect, nodeText]
  | importMeta _ _ => simp [syntaxReplacement, replaceNode]

namespace Marked

variable {isModule : Bool}

/-- The outermost expressions of a parse tree are those of the text, which begins at `base`, and so
    it is in their arguments. -/
def Describes : Marked isModule → ℕ → List Node → Prop
  | nil, _, nodes => nodes = []
  | unit _ rest, base, nodes => rest.Describes (base + 1) nodes
  | importMeta _ tail rest, base, nodes =>
    let stop := base + (units "import" ++ tail).length
    ∃ others, nodes.Perm (.importMeta base stop :: others) ∧ rest.Describes stop others
  | importCall head specifier tail rest, base, nodes =>
    let start := base + (units "import" ++ head).length
    let stop := base + (units "import" ++ head ++ specifier.text ++ tail).length
    ∃ source others, nodes.Perm (.importExpression base stop source none :: others) ∧
      source.start = start ∧ source.stop = start + specifier.text.length ∧
      specifier.Describes start source.outermost ∧ rest.Describes stop others
  | importCallWith head specifier middle options tail rest, base, nodes =>
    let start := base + (units "import" ++ head).length
    let startOptions := base + (units "import" ++ head ++ specifier.text ++ middle).length
    let stop := base +
      (units "import" ++ head ++ specifier.text ++ middle ++ options.text ++ tail).length
    ∃ source node others, nodes.Perm (.importExpression base stop source (some node) :: others) ∧
      (source.start = start ∧ source.stop = start + specifier.text.length ∧
        specifier.Describes start source.outermost) ∧
      (node.start = startOptions ∧ node.stop = startOptions + options.text.length ∧
        options.Describes startOptions node.outermost) ∧
      rest.Describes stop others

end Marked

/-- `text` stands at `base` of the source. -/
def Stands (source : Text) (base : ℕ) (text : Text) : Prop :=
  ∃ before after, source = before ++ (text ++ after) ∧ before.length = base

namespace Stands

variable {source text a b c : Text} {base : ℕ}

theorem refl (source : Text) : Stands source 0 source := ⟨[], [], by simp, rfl⟩

theorem left (h : Stands source base (a ++ b)) : Stands source base a := by
  obtain ⟨before, after, rfl, hbase⟩ := h
  exact ⟨before, b ++ after, by simp, hbase⟩

theorem right (h : Stands source base (a ++ b)) : Stands source (base + a.length) b := by
  obtain ⟨before, after, rfl, rfl⟩ := h
  exact ⟨before ++ a, after, by simp, by simp⟩

theorem length_le (h : Stands source base text) : base + text.length ≤ source.length := by
  obtain ⟨before, after, rfl, rfl⟩ := h
  simp only [length_append]
  omega

/-- A range of it, where the parsed text has `offset` code units before the source. -/
theorem slice_eq (h : Stands source base text) {offset start stop : ℕ}
    (hstart : start = offset + base) (hstop : stop = start + text.length) :
    slice source (start - offset) (stop - offset) = text := by
  obtain ⟨before, after, rfl, rfl⟩ := h
  rw [← append_assoc]
  apply slice_append
  · omega
  · omega

end Stands

namespace Marked

variable {isModule : Bool}

/-- The text stands at `base` of the source, and a parse tree describes it there. -/
structure Placed (source : Text) (offset base : ℕ) (m : Marked isModule) (nodes : List Node) :
    Prop where
  stands : Stands source base m.text
  describes : m.Describes (offset + base) nodes

/-- It is the argument that `node` is. -/
structure Argument (source : Text) (offset base : ℕ) (m : Marked isModule) (node : Node) : Prop where
  start : node.start = offset + base
  stop : node.stop = node.start + m.text.length
  placed : m.Placed source offset base node.outermost

section Placed

variable {source head middle tail : Text} {offset base : ℕ} {m specifier options rest : Marked isModule}
  {node node' : Node} {nodes : List Node}

theorem Argument.slice_eq (h : m.Argument source offset base node) :
    slice source (node.start - offset) (node.stop - offset) = m.text :=
  h.placed.stands.slice_eq h.start h.stop

theorem Placed.unit {c : UInt16} (h : (Marked.unit c rest).Placed source offset base nodes) :
    rest.Placed source offset (base + 1) nodes :=
  ⟨Stands.right (a := [c]) h.stands, h.describes⟩

theorem Placed.importMeta {hm : isModule = true}
    (h : (Marked.importMeta hm tail rest).Placed source offset base nodes) :
    ∃ others, nodes.Perm (.importMeta (offset + base)
        (offset + base + (units "import" ++ tail).length) :: others) ∧
      rest.Placed source offset (base + (units "import" ++ tail).length) others := by
  obtain ⟨others, hperm, hrest⟩ := h.describes
  rw [Nat.add_assoc] at hrest
  exact ⟨others, hperm, h.stands.right, hrest⟩

theorem Placed.importCall
    (h : (Marked.importCall head specifier tail rest).Placed source offset base nodes) :
    ∃ node others, nodes.Perm (.importExpression (offset + base)
        (offset + base + (units "import" ++ head ++ specifier.text ++ tail).length) node none ::
          others) ∧
      specifier.Argument source offset (base + (units "import" ++ head).length) node ∧
      rest.Placed source offset
        (base + (units "import" ++ head ++ specifier.text ++ tail).length) others := by
  obtain ⟨node, others, hperm, hstart, hstop, hspecifier, hrest⟩ := h.describes
  rw [← hstart] at hstop
  rw [Nat.add_assoc] at hstart hspecifier hrest
  exact ⟨node, others, hperm, ⟨hstart, hstop, h.stands.left.left.right, hspecifier⟩,
    h.stands.right, hrest⟩

theorem Placed.importCallWith
    (h : (Marked.importCallWith head specifier middle options tail rest).Placed source offset base
      nodes) :
    ∃ node node' others, nodes.Perm (.importExpression (offset + base) (offset + base +
        (units "import" ++ head ++ specifier.text ++ middle ++ options.text ++ tail).length)
          node (some node') :: others) ∧
      specifier.Argument source offset (base + (units "import" ++ head).length) node ∧
      options.Argument source offset
        (base + (units "import" ++ head ++ specifier.text ++ middle).length) node' ∧
      rest.Placed source offset (base +
        (units "import" ++ head ++ specifier.text ++ middle ++ options.text ++ tail).length)
          others := by
  obtain ⟨node, node', others, hperm, ⟨hstart, hstop, hspecifier⟩, ⟨hstart', hstop', hoptions⟩,
    hrest⟩ := h.describes
  rw [← hstart] at hstop
  rw [← hstart'] at hstop'
  rw [Nat.add_assoc] at hstart hspecifier hstart' hoptions hrest
  exact ⟨node, node', others, hperm,
    ⟨hstart, hstop, h.stands.left.left.left.left.right, hspecifier⟩,
    ⟨hstart', hstop', h.stands.left.left.right, hoptions⟩, h.stands.right, hrest⟩

variable (l : Dialect)

theorem replace_importMeta (base length : ℕ) :
    replaceNode l source offset (.importMeta (offset + base) (offset + base + length)) =
      some ⟨base, (base + length : ℕ), units "__importMeta"⟩ := by
  rw [replaceNode]
  congr 2
  · omega
  · omega

theorem replace_importCall {start : ℕ} (h : specifier.Argument source offset start node)
    (length : ℕ) :
    replaceNode l source offset
        (.importExpression (offset + base) (offset + base + length) node none) =
      some ⟨base, (base + length : ℕ), l.call specifier.text none⟩ := by
  rw [replaceNode, h.slice_eq]
  congr 2
  · omega
  · omega

theorem replace_importCallWith {start start' : ℕ} (h : specifier.Argument source offset start node)
    (h' : options.Argument source offset start' node') (length : ℕ) :
    replaceNode l source offset
        (.importExpression (offset + base) (offset + base + length) node (some node')) =
      some ⟨base, (base + length : ℕ), l.call specifier.text (some options.text)⟩ := by
  rw [replaceNode, h.slice_eq, Option.map_some, h'.slice_eq]
  congr 2
  · omega
  · omega

/-- What the traversal finds is what there is to replace. -/
theorem replace_describes (h : m.Placed source offset base nodes) :
    ((nodes.flatMap Node.expressions).filterMap (replaceNode l source offset)).Perm
      (m.replacements l base) := by
  induction m generalizing base nodes with
  | nil =>
    rw [show nodes = [] from h.describes]
    exact List.Perm.refl _
  | unit c rest ih => exact ih h.unit
  | importMeta hm tail rest ih =>
    obtain ⟨others, hperm, hrest⟩ := h.importMeta
    refine ((hperm.flatMap_right _).filterMap _).trans ?_
    rw [flatMap_cons, Node.expressions, List.singleton_append,
      filterMap_cons_some (replace_importMeta l ..)]
    exact (ih hrest).cons _
  | importCall head specifier tail rest ihs ih =>
    obtain ⟨node, others, hperm, hspecifier, hrest⟩ := h.importCall
    refine ((hperm.flatMap_right _).filterMap _).trans ?_
    rw [flatMap_cons, Node.expressions, cons_append, filterMap_cons_some
      (replace_importCall l hspecifier _), filterMap_append, Node.expressions_eq]
    exact ((ihs hspecifier.placed).append (ih hrest)).cons _
  | importCallWith head specifier middle options tail rest ihs iho ih =>
    obtain ⟨node, node', others, hperm, hspecifier, hoptions, hrest⟩ := h.importCallWith
    refine ((hperm.flatMap_right _).filterMap _).trans ?_
    rw [flatMap_cons, Node.expressions, cons_append, filterMap_cons_some
      (replace_importCallWith l hspecifier hoptions _), filterMap_append,
      filterMap_append, Node.expressions_eq node, Node.expressions_eq node']
    -- the options come off the stack before the specifier
    exact ((List.perm_append_comm.trans ((ihs hspecifier.placed).append
      (iho hoptions.placed))).append (ih hrest)).cons _

end Placed

end Marked

/-! ## Functions are lowered -/

theorem sourceSlice_eq {source : Text} {offset : ℕ} {node : Node} (hstart : offset ≤ node.start)
    (hstop : node.start ≤ node.stop) (hlength : node.stop ≤ offset + source.length) :
    sourceSlice source offset node =
      .ok (slice source (node.start - offset) (node.stop - offset)) := by
  have hin : ¬ ((node.start : ℤ) - offset < 0 ∨ (node.stop : ℤ) - offset < node.start - offset ∨
      (node.stop : ℤ) - offset > source.length) := by
    omega
  rw [sourceSlice, if_neg hin]

/-- The expression is an `import()`, and its arguments lie within the source. -/
def Replaced (source referrer : Text) (offset : ℕ) (node : Node) : Prop :=
  pushImport [] node 0 = [node] ∧
    functionReplacement source referrer offset node =
      .ok (replaceNode (functionDialect referrer) source offset node)

theorem replaced_importCall {source referrer : Text} {offset start stop : ℕ} {node : Node}
    (hnode : sourceSlice source offset node =
      .ok (slice source (node.start - offset) (node.stop - offset))) :
    Replaced source referrer offset (.importExpression start stop node none) := by
  refine ⟨rfl, ?_⟩
  simp [functionReplacement, hnode, replaceNode, Dialect.call, functionDialect, bind, Except.bind,
    pure, Except.pure]

theorem replaced_importCallWith {source referrer : Text} {offset start stop : ℕ} {node node' : Node}
    (hnode : sourceSlice source offset node =
      .ok (slice source (node.start - offset) (node.stop - offset)))
    (hnode' : sourceSlice source offset node' =
      .ok (slice source (node'.start - offset) (node'.stop - offset))) :
    Replaced source referrer offset (.importExpression start stop node (some node')) := by
  refine ⟨rfl, ?_⟩
  simp [functionReplacement, hnode, hnode', replaceNode, Dialect.call, functionDialect, bind,
    Except.bind, pure, Except.pure]

namespace Marked

theorem Argument.sourceSlice_eq {m : Marked false} {source : Text} {offset base : ℕ} {node : Node}
    (h : m.Argument source offset base node) : sourceSlice source offset node =
      .ok (slice source (node.start - offset) (node.stop - offset)) := by
  have hlength := h.placed.stands.length_le
  have hstart := h.start
  have hstop := h.stop
  apply DynamicImports.sourceSlice_eq <;> omega

theorem replaced_describes (referrer : Text) {m : Marked false} {source : Text} {offset base : ℕ}
    {nodes : List Node} (h : m.Placed source offset base nodes) :
    ∀ node ∈ nodes.flatMap Node.expressions, Replaced source referrer offset node := by
  induction m generalizing base nodes with
  | nil =>
    rw [show nodes = [] from h.describes]
    exact fun node hnode => absurd hnode not_mem_nil
  | unit c rest ih => exact ih h.unit
  | importMeta hm tail rest ih => cases hm
  | importCall head specifier tail rest ihs ih =>
    obtain ⟨source', others, hperm, hspecifier, hrest⟩ := h.importCall
    intro node hnode
    rw [(hperm.flatMap_right _).mem_iff, flatMap_cons, Node.expressions, cons_append,
      mem_cons, mem_append, Node.expressions_eq] at hnode
    rcases hnode with rfl | hnode | hnode
    · exact replaced_importCall hspecifier.sourceSlice_eq
    · exact ihs hspecifier.placed node hnode
    · exact ih hrest node hnode
  | importCallWith head specifier middle options tail rest ihs iho ih =>
    obtain ⟨source', options', others, hperm, hspecifier, hoptions, hrest⟩ := h.importCallWith
    intro node hnode
    rw [(hperm.flatMap_right _).mem_iff, flatMap_cons, Node.expressions, cons_append,
      mem_cons, mem_append, mem_append, Node.expressions_eq source',
      Node.expressions_eq options'] at hnode
    rcases hnode with rfl | (hnode | hnode) | hnode
    · exact replaced_importCallWith hspecifier.sourceSlice_eq hoptions.sourceSlice_eq
    · exact iho hoptions.placed node hnode
    · exact ihs hspecifier.placed node hnode
    · exact ih hrest node hnode

end Marked

theorem mapM_replaced {source referrer : Text} {offset : ℕ} {nodes : List Node}
    (h : ∀ node ∈ nodes, Replaced source referrer offset node) :
    nodes.mapM (functionReplacement source referrer offset) =
      .ok (nodes.map (replaceNode (functionDialect referrer) source offset)) := by
  induction nodes with
  | nil => rfl
  | cons node nodes ih =>
    obtain ⟨hnode, hnodes⟩ := List.forall_mem_cons.mp h
    rw [List.mapM_cons, hnode.2, ih hnodes]
    rfl

theorem imports_eq {source referrer : Text} {offset : ℕ} {program : Node}
    (h : ∀ node ∈ program.expressions, Replaced source referrer offset node) :
    traverseAll pushImport [program] [] = program.expressions := by
  have himports := @traverseAll_eq _ _ pushImport id
    (fun node => pushImport [] node 0) (fun acc node depth => by cases node <;> simp [pushImport])
    (fun _ _ _ _ => rfl) [program] []
  rw [id, id, nil_append] at himports
  rw [himports, Node.expressionsAll, Node.expressionsAll, nil_append]
  rw [← List.flatMap_singleton' program.expressions, List.flatMap_assoc]
  exact List.flatMap_congr fun node hnode => by rw [List.flatMap_singleton, (h node hnode).1]

/-- What a function's source becomes: all its replacements, from the last to the first. -/
theorem lowerDynamicImports_eq {m : Marked false} {offset : ℕ} {program : Node}
    (h : m.Describes offset program.outermost) (referrer : Text) :
    wasmerNapiLowerDynamicImports offset program m.text referrer =
      .ok (spliceBack (m.replacements (functionDialect referrer) 0) m.text) := by
  have hplaced : m.Placed m.text offset 0 program.outermost := ⟨Stands.refl _, h⟩
  have hreplaced : ∀ node ∈ program.expressions, Replaced m.text referrer offset node := by
    rw [Node.expressions_eq]
    exact Marked.replaced_describes referrer hplaced
  have hperm := Marked.replace_describes (functionDialect referrer) hplaced
  rw [← Node.expressions_eq] at hperm
  rw [wasmerNapiLowerDynamicImports, imports_eq hreplaced]
  cases hnodes : program.expressions with
  | nil =>
    rw [hnodes] at hperm
    rw [List.nil_perm.mp hperm]
    rfl
  | cons node nodes =>
    rw [hnodes] at hperm hreplaced
    rw [mapM_replaced hreplaced, List.isEmpty_cons]
    simp only [Bool.false_eq_true, if_false, bind, Except.bind, pure, Except.pure,
      List.filterMap_map, Function.id_comp]
    rw [descending_eq_reverse (Marked.pairwise_replacements _ m 0) hperm, spliceAll_reverse]

theorem lowerDynamicImports_iff {m : Marked false} {offset : ℕ} {program : Node}
    (h : m.Describes offset program.outermost) (referrer : Text) :
    wasmerNapiLowerDynamicImports offset program m.text referrer =
      .ok (m.lowered (functionDialect referrer)) ↔ m.isFlat = true := by
  rw [lowerDynamicImports_eq h, Except.ok.injEq]
  constructor
  · intro heq
    by_contra hflat
    obtain ⟨t, ht, hd⟩ := m.splice_differ (functionDialect referrer) (by simpa using hflat) [] []
    apply hd.ne
    rw [← heq]
    simpa using ht.symm
  · intro hflat
    simpa using m.splice_of_isFlat (functionDialect referrer) hflat [] []

/-! ## The outermost expressions -/

def Node.isExpression : Node → Bool
  | .other .. => false
  | _ => true

mutual

theorem isExpression_of_mem_outermost : ∀ (root : Node) (node : Node), node ∈ root.outermost →
    node.isExpression = true
  | .other _ _ _ children, node, h => isExpression_of_mem_outermostAll children node h
  | .importExpression _ _ _ _, node, h => by
    rw [mem_singleton.mp h]
    rfl
  | .importMeta _ _, node, h => by
    rw [mem_singleton.mp h]
    rfl

theorem isExpression_of_mem_outermostAll : ∀ (nodes : List Node) (node : Node),
    node ∈ Node.outermostAll nodes → node.isExpression = true
  | [], _, h => absurd h not_mem_nil
  | root :: rest, node, h => by
    rcases mem_append.mp h with h | h
    · exact isExpression_of_mem_outermostAll rest node h
    · exact isExpression_of_mem_outermost root node h

end

namespace Marked

variable {isModule : Bool}

/-- The outermost expressions the traversal finds are those of the text. -/
theorem outer_describes (l : Dialect) {m : Marked isModule} {source : Text} {offset base : ℕ}
    {nodes : List Node} (h : m.Placed source offset base nodes) :
    (nodes.filterMap (replaceNode l source offset)).Perm
      (Segment.replacements base (m.segments l)) := by
  induction m generalizing base nodes with
  | nil =>
    rw [show nodes = [] from h.describes]
    exact List.Perm.refl _
  | unit c rest ih => exact ih h.unit
  | importMeta hm tail rest ih =>
    obtain ⟨others, hperm, hrest⟩ := h.importMeta
    refine (hperm.filterMap _).trans ?_
    rw [filterMap_cons_some (replace_importMeta l ..)]
    exact (ih hrest).cons _
  | importCall head specifier tail rest _ ih =>
    obtain ⟨node, others, hperm, hspecifier, hrest⟩ := h.importCall
    refine (hperm.filterMap _).trans ?_
    rw [filterMap_cons_some (replace_importCall l hspecifier _)]
    exact (ih hrest).cons _
  | importCallWith head specifier middle options tail rest _ _ ih =>
    obtain ⟨node, node', others, hperm, hspecifier, hoptions, hrest⟩ := h.importCallWith
    refine (hperm.filterMap _).trans ?_
    rw [filterMap_cons_some (replace_importCallWith l hspecifier hoptions _)]
    exact (ih hrest).cons _

/-- What is replaced in the arguments of an expression lies within it. -/
theorem within_describes (l : Dialect) {m : Marked isModule} {source : Text} {offset base : ℕ}
    {nodes : List Node} (h : m.Placed source offset base nodes) :
    ∀ node ∈ nodes, ∀ outer ∈ replaceNode l source offset node,
      ∀ inner ∈ node.expressions.tail.filterMap (replaceNode l source offset),
        outer.Encloses inner := by
  induction m generalizing base nodes with
  | nil =>
    rw [show nodes = [] from h.describes]
    exact fun node hnode => absurd hnode not_mem_nil
  | unit c rest ih => exact ih h.unit
  | importMeta hm tail rest ih =>
    obtain ⟨others, hperm, hrest⟩ := h.importMeta
    intro node hnode
    rcases mem_cons.mp (hperm.subset hnode) with rfl | hnode
    · exact fun outer _ inner hinner => absurd hinner not_mem_nil
    · exact ih hrest node hnode
  | importCall head specifier tail rest _ ih =>
    obtain ⟨node, others, hperm, hspecifier, hrest⟩ := h.importCall
    intro node' hnode'
    rcases mem_cons.mp (hperm.subset hnode') with rfl | hnode'
    · intro outer houter inner hinner
      rw [Option.mem_def, replace_importCall l hspecifier, Option.some.injEq] at houter
      rw [Node.expressions, List.tail_cons, Node.expressions_eq,
        (replace_describes l hspecifier.placed).mem_iff] at hinner
      have hin := Marked.within_replacements l hinner
      simp only [length_append] at hin
      subst houter
      simp only [Replacement.Encloses, length_append]
      omega
    · exact ih hrest node' hnode'
  | importCallWith head specifier middle options tail rest _ _ ih =>
    obtain ⟨node, other, others, hperm, hspecifier, hoptions, hrest⟩ := h.importCallWith
    intro node' hnode'
    rcases mem_cons.mp (hperm.subset hnode') with rfl | hnode'
    · intro outer houter inner hinner
      rw [Option.mem_def, replace_importCallWith l hspecifier hoptions, Option.some.injEq] at houter
      rw [Node.expressions, List.tail_cons, filterMap_append, mem_append,
        Node.expressions_eq node, Node.expressions_eq other,
        (replace_describes l hspecifier.placed).mem_iff,
        (replace_describes l hoptions.placed).mem_iff] at hinner
      subst houter
      simp only [Replacement.Encloses]
      rcases hinner with hinner | hinner <;>
      · have hin := Marked.within_replacements l hinner
        simp only [length_append] at hin ⊢
        omega
    · exact ih hrest node' hnode'

end Marked

/-! ## The parts of a module -/

/-- A stretch of a module's source with at most one statement in it. An import or export declaration
    is the whole of it, and `marked` is then what it declares. -/
structure Item where
  head : Text
  marked : Marked true
  tail : Text
  statement : Option Statement

namespace Item

variable (stringify : Stringify) (l : Dialect)

def text (item : Item) : Text := item.head ++ item.marked.text ++ item.tail

def nodes (item : Item) : List Node := (item.statement.map Statement.node).toList

/-- The parse tree has the stretch at `base`. -/
structure Exact (base : ℕ) (item : Item) : Prop where
  describes : item.marked.Describes (base + item.head.length) (Node.outermostAll item.nodes)
  range : ∀ s ∈ item.statement, ∀ range ∈ s.range,
    item.head ≠ [] ∧ range = (base, base + item.text.length)
  declaration : ∀ s ∈ item.statement, ∀ node ∈ s.declaration,
    node.start = base + item.head.length ∧
      node.stop = base + item.head.length + item.marked.text.length

/-- How many requests there are once the stretch has made its own. -/
def nextIndex (index : ℕ) (item : Item) : ℕ :=
  (item.statement.map (DynamicImports.nextIndex index)).getD index

/-- What the bindings of its declaration are, when what it declares becomes `declared`. -/
def bound (index : ℕ) (declared : Text) (item : Item) : Option Text :=
  item.statement.bind (bindings stringify index fun _ => declared)

/-- What the stretch is meant to become. -/
def lowered (index : ℕ) (item : Item) : Text :=
  (item.bound stringify index (item.marked.lowered l)).getD
    (item.head ++ item.marked.lowered l ++ item.tail)

/-- The stretch with its outermost expressions replaced. -/
def marks (item : Item) : List (Segment UInt16) :=
  ⟨item.head, none⟩ :: (item.marked.segments l ++ [⟨item.tail, none⟩])

/-- What becomes of a declaration: the replacements in it, from the last to the first. -/
def spliced (item : Item) : Text := spliceBack (item.marked.replacements l 0) item.marked.text

/-- What becomes of the stretch. -/
def segments (index : ℕ) (item : Item) : List (Segment UInt16) :=
  ((item.bound stringify index (item.spliced l)).map
    fun text => [⟨item.text, some text⟩]).getD (item.marks l)

theorem raws_marks (item : Item) : Segment.raws (item.marks l) = item.text := by
  simp [marks, text, Marked.raws_segments]

theorem replacements_marks (base : ℕ) (item : Item) :
    Segment.replacements base (item.marks l) =
      Segment.replacements (base + item.head.length) (item.marked.segments l) := by
  simp [marks, Segment.replacements, Segment.replacements_append]

theorem proper_marks (item : Item) : Segment.Proper (item.marks l) := by
  intro s hs
  rcases mem_cons.mp hs with rfl | hs
  · simp
  · rcases mem_append.mp hs with hs | hs
    · exact item.marked.proper_segments l s hs
    · rw [mem_singleton.mp hs]
      simp

theorem raws_segments (index : ℕ) (item : Item) :
    Segment.raws (item.segments stringify l index) = item.text := by
  rw [segments]
  cases item.bound stringify index (item.spliced l) with
  | none => exact item.raws_marks l
  | some text => simp

end Item

def texts (items : List Item) : Text := items.flatMap Item.text

def statements (items : List Item) : List Statement := items.filterMap Item.statement

/-- The parse tree has the stretches one after the other. -/
def Exact : ℕ → List Item → Prop
  | _, [] => True
  | base, item :: rest => item.Exact base ∧ Exact (base + item.text.length) rest

/-- What a module's source is meant to become. -/
def loweredAll (stringify : Stringify) (l : Dialect) : ℕ → List Item → Text
  | _, [] => []
  | index, item :: rest =>
    item.lowered stringify l index ++ loweredAll stringify l (item.nextIndex index) rest

/-- What becomes of it. -/
def segmentsAll (stringify : Stringify) (l : Dialect) : ℕ → List Item → List (Segment UInt16)
  | _, [] => []
  | index, item :: rest =>
    item.segments stringify l index ++ segmentsAll stringify l (item.nextIndex index) rest

/-! ### What is found in them -/

def replacementsAll (l : Dialect) : ℕ → List Item → List (Replacement UInt16)
  | _, [] => []
  | base, item :: rest =>
    item.marked.replacements l (base + item.head.length) ++
      replacementsAll l (base + item.text.length) rest

theorem nodes_statements (items : List Item) :
    (statements items).map Statement.node = items.flatMap Item.nodes := by
  induction items with
  | nil => rfl
  | cons item rest ih =>
    rw [flatMap_cons, ← ih, Item.nodes, statements, List.filterMap_cons]
    cases item.statement <;> rfl

section Found

variable (l : Dialect) {source : Text} {base : ℕ} {items : List Item}

theorem Item.Exact.placed {item : Item} {rest : Text} (h : item.Exact base)
    (hstands : Stands source base (item.text ++ rest)) :
    item.marked.Placed source 0 (base + item.head.length) (Node.outermostAll item.nodes) :=
  ⟨hstands.left.left.right, by rw [Nat.zero_add]; exact h.describes⟩

/-- Every replacement there is, is found. -/
theorem replace_exact (h : Exact base items) (hstands : Stands source base (texts items)) :
    ((items.flatMap Item.nodes).flatMap Node.expressions |>.filterMap
      (replaceNode l source 0)).Perm (replacementsAll l base items) := by
  induction items generalizing base with
  | nil => exact List.Perm.refl _
  | cons item rest ih =>
    obtain ⟨hitem, hrest⟩ := h
    rw [flatMap_cons, List.flatMap_append, filterMap_append, replacementsAll]
    refine List.Perm.append (List.Perm.trans ?_
      (Marked.replace_describes l (hitem.placed hstands))) (ih hrest hstands.right)
    -- the traversal meets the last child first
    rw [← Node.expressionsAll_eq_outermostAll, Node.expressionsAll_eq]
    exact ((List.reverse_perm _).symm.flatMap_right _).filterMap _

/-- The outermost ones that are found are those of the text. -/
theorem outer_exact (h : Exact base items) (hstands : Stands source base (texts items)) :
    ((Node.outermostAll (items.flatMap Item.nodes)).filterMap (replaceNode l source 0)).Perm
      (Segment.replacements base (items.flatMap (Item.marks l))) := by
  induction items generalizing base with
  | nil => exact List.Perm.refl _
  | cons item rest ih =>
    obtain ⟨hitem, hrest⟩ := h
    rw [flatMap_cons, Node.outermostAll_append, filterMap_append, flatMap_cons,
      Segment.replacements_append, Item.replacements_marks, Item.raws_marks]
    exact List.perm_append_comm.trans
      ((Marked.outer_describes l (hitem.placed hstands)).append (ih hrest hstands.right))

theorem within_exact (h : Exact base items) (hstands : Stands source base (texts items)) :
    ∀ node ∈ Node.outermostAll (items.flatMap Item.nodes),
      ∀ outer ∈ replaceNode l source 0 node,
        ∀ inner ∈ node.expressions.tail.filterMap (replaceNode l source 0),
          outer.Encloses inner := by
  induction items generalizing base with
  | nil => exact fun node hnode => absurd hnode not_mem_nil
  | cons item rest ih =>
    obtain ⟨hitem, hrest⟩ := h
    intro node hnode
    rw [flatMap_cons, Node.outermostAll_append] at hnode
    rcases mem_append.mp hnode with hnode | hnode
    · exact ih hrest hstands.right node hnode
    · exact Marked.within_describes l (hitem.placed hstands) node hnode

/-! ### What is kept of them -/

/-- An expression and those in its arguments. -/
def group (source : Text) (node : Node) : Option (Replacement UInt16 × List (Replacement UInt16)) :=
  (replaceNode l source 0 node).map fun outer =>
    (outer, node.expressions.tail.filterMap (replaceNode l source 0))

theorem groups_fst (nodes : List Node) :
    (nodes.filterMap (group l source)).map Prod.fst = nodes.filterMap (replaceNode l source 0) := by
  rw [List.map_filterMap]
  congr 1
  funext node
  rw [group, Option.map_map]
  exact Option.map_id'

/-- An expression comes off the stack before those in its arguments. -/
theorem groups_flatMap {nodes : List Node} (h : ∀ node ∈ nodes, node.isExpression = true) :
    (nodes.flatMap Node.expressions).filterMap (replaceNode l source 0) =
      (nodes.filterMap (group l source)).flatMap fun g => g.1 :: g.2 := by
  induction nodes with
  | nil => rfl
  | cons node rest ih =>
    obtain ⟨hnode, hrest⟩ := List.forall_mem_cons.mp h
    have hexpr : node.expressions = node :: node.expressions.tail := by
      cases node with
      | other _ _ _ _ => cases hnode
      | importExpression _ _ _ options => cases options <;> rfl
      | importMeta _ _ => rfl
    obtain ⟨outer, houter⟩ : ∃ outer, replaceNode l source 0 node = some outer := by
      cases node with
      | other _ _ _ _ => cases hnode
      | importExpression _ _ _ _ => exact ⟨_, rfl⟩
      | importMeta _ _ => exact ⟨_, rfl⟩
    have hgroup : group l source node =
        some (outer, node.expressions.tail.filterMap (replaceNode l source 0)) := by
      rw [group, houter, Option.map_some]
    rw [flatMap_cons, filterMap_append, filterMap_cons_some hgroup,
      flatMap_cons, ih hrest, hexpr, filterMap_cons_some houter, List.tail_cons]

/-- Of the expressions the outermost are kept that lie in no declaration. -/
theorem unenclosed_exact {items : List Item} (h : Exact 0 items) (hsource : source = texts items)
    (kept : List (Replacement UInt16)) :
    (unenclosed kept ((Node.expressionsAll (items.flatMap Item.nodes)).filterMap
      (replaceNode l source 0))).Perm
      (kept ++ (Segment.replacements 0 (items.flatMap (Item.marks l))).filter
        fun r => !kept.any fun k => k.Encloses r) := by
  have hstands : Stands source 0 (texts items) := hsource ▸ Stands.refl _
  have houter := outer_exact l h hstands
  have hproper : Segment.Proper (items.flatMap (Item.marks l)) := by
    intro s hs
    obtain ⟨item, -, hs⟩ := List.mem_flatMap.mp hs
    exact item.proper_marks l s hs
  rw [Node.expressionsAll_eq_outermostAll,
    groups_flatMap l (isExpression_of_mem_outermostAll _), unenclosed_groups, groups_fst]
  · exact (houter.filter _).append_left kept
  · intro g hg r hr
    obtain ⟨node, hnode, hgroup⟩ := List.mem_filterMap.mp hg
    obtain ⟨outer, houter, rfl⟩ := Option.map_eq_some_iff.mp hgroup
    exact within_exact l h hstands node hnode outer houter r hr
  · have hapart := Segment.not_encloses_of_perm hproper houter
    rw [← groups_fst, List.pairwise_map] at hapart
    exact hapart

end Found

/-! ### What becomes of a declaration -/

/-- Replacements before a place, and after one. -/
def Before (k : ℕ) (rs : List (Replacement UInt16)) : Prop :=
  ∀ r ∈ rs, r.start < r.stop ∧ r.stop ≤ k

def After (k : ℕ) (rs : List (Replacement UInt16)) : Prop :=
  ∀ r ∈ rs, r.start < r.stop ∧ (k : ℤ) ≤ r.start

section Lower

variable (l : Dialect) {source : Text} {base : ℕ}

theorem lower_eq {item : Item} (hitem : item.Exact base) (hstands : Stands source base item.text)
    {found front back : List (Replacement UInt16)}
    (hfound : found.Perm (front ++
      (item.marked.replacements l (base + item.head.length) ++ back)))
    (hfront : Before base front) (hback : After (base + item.text.length) back)
    {s : Statement} (hs : item.statement = some s) {node : Node} (hnode : s.declaration = some node) :
    lower source found node = item.spliced l := by
  obtain ⟨hstart, hstop⟩ := hitem.declaration s hs node hnode
  have hlength : item.text.length =
      item.head.length + item.marked.text.length + item.tail.length := by
    simp [Item.text, Nat.add_assoc]
  -- only the replacements of the item itself lie within the declaration
  have hnested : (found.filter fun r =>
      (node.start : ℤ) ≤ r.start ∧ r.stop ≤ (node.stop : ℤ)).Perm
      (item.marked.replacements l (base + item.head.length)) := by
    refine (hfound.filter _).trans ?_
    rw [List.filter_append, List.filter_append, List.filter_eq_nil_iff.mpr ?_,
      List.filter_eq_self.mpr ?_, List.filter_eq_nil_iff.mpr ?_, List.append_nil, nil_append]
    · intro r hr
      have h := hback r hr
      simp only [decide_eq_true_eq]
      omega
    · intro r hr
      have h := Marked.within_replacements l hr
      simp only [decide_eq_true_eq]
      omega
    · intro r hr
      have h := hfront r hr
      simp only [decide_eq_true_eq]
      omega
  have htext : nodeText source node = item.marked.text := by
    have hzero : node.start = 0 + (base + item.head.length) := by rw [hstart, Nat.zero_add]
    have hend : node.stop = node.start + item.marked.text.length := by rw [hstop, hstart]
    simpa [nodeText] using hstands.left.right.slice_eq hzero hend
  have hshift := Marked.shift_replacements l item.marked 0 node.start
  rw [Nat.zero_add, hstart] at hshift
  rw [lower, htext, descending_eq_reverse (Marked.pairwise_replacements l _ _) hnested,
    List.map_reverse, hstart, hshift, spliceAll_reverse, Item.spliced]

end Lower

theorem bindings_congr (stringify : Stringify) (index : ℕ) {lower : Node → Text} {t : Text}
    {s : Statement} (h : ∀ node ∈ s.declaration, lower node = t) :
    bindings stringify index lower s = bindings stringify index (fun _ => t) s := by
  cases s with
  | exportDefault _ _ node id => cases id <;> simp [bindings, h node rfl]
  | exportDeclaration _ _ node names => simp [bindings, h node rfl]
  | exportAll _ _ _ _ exported => cases exported <;> rfl
  | _ => rfl

theorem bindings_isSome (stringify : Stringify) (index : ℕ) (lower : Node → Text) (s : Statement) :
    (bindings stringify index lower s).isSome = s.range.isSome := by
  cases s with
  | exportDefault _ _ node id => cases id <;> rfl
  | exportAll _ _ _ _ exported => cases exported <;> rfl
  | _ => rfl

/-! ### What becomes of a module -/

section Modules

variable (stringify : Stringify) (l : Dialect)

/-- The replacement of the stretch, when it is a declaration. -/
def Item.replacement (base index : ℕ) (item : Item) : Option (Replacement UInt16) :=
  (item.bound stringify index (item.spliced l)).map fun text =>
    ⟨base, base + item.text.length, text⟩

def replacementsOf : ℕ → ℕ → List Item → List (Replacement UInt16)
  | _, _, [] => []
  | base, index, item :: rest =>
    (item.replacement stringify l base index).toList ++
      replacementsOf (base + item.text.length) (item.nextIndex index) rest

variable {stringify}

theorem Item.Exact.head_ne_nil {base index : ℕ} {item : Item} (h : item.Exact base) {t text : Text}
    (hbound : item.bound stringify index t = some text) :
    item.head ≠ [] ∧ ∃ s, item.statement = some s ∧ s.range = some (base, base + item.text.length) := by
  obtain ⟨s, hs, hbindings⟩ := Option.bind_eq_some_iff.mp hbound
  have hrange : s.range.isSome = true := by
    rw [← bindings_isSome stringify index (fun _ => t), hbindings]
    rfl
  obtain ⟨range, hrange⟩ := Option.isSome_iff_exists.mp hrange
  obtain ⟨hhead, rfl⟩ := h.range s hs range hrange
  exact ⟨hhead, s, hs, hrange⟩

theorem Item.Exact.text_ne_nil {base index : ℕ} {item : Item} (h : item.Exact base) {t text : Text}
    (hbound : item.bound stringify index t = some text) : item.text ≠ [] := by
  intro hnil
  rw [Item.text, append_assoc, List.append_eq_nil_iff] at hnil
  exact (h.head_ne_nil hbound).1 hnil.1

theorem after_replacementsOf {base index : ℕ} {items : List Item} (h : Exact base items) :
    After base (replacementsOf stringify l base index items) := by
  induction items generalizing base index with
  | nil => exact fun r hr => absurd hr not_mem_nil
  | cons item rest ih =>
    obtain ⟨hitem, hrest⟩ := h
    intro r hr
    rcases mem_append.mp hr with hr | hr
    · obtain ⟨text, hbound, rfl⟩ := Option.map_eq_some_iff.mp (Option.mem_toList.mp hr)
      have hlength := List.length_pos_iff.mpr (hitem.text_ne_nil hbound)
      simp only
      omega
    · have hr := ih hrest r hr
      omega

theorem after_replacementsAll (base : ℕ) (items : List Item) :
    After base (replacementsAll l base items) := by
  induction items generalizing base with
  | nil => exact fun r hr => absurd hr not_mem_nil
  | cons item rest ih =>
    intro r hr
    rcases mem_append.mp hr with hr | hr
    · have hr := Marked.within_replacements l hr
      omega
    · have hr := ih _ r hr
      omega

/-- The replacements of the declarations are those of the stretches that are declarations. -/
theorem moduleReplacements_eq {source : Text} {items : List Item} {base index : ℕ}
    (h : Exact base items) (hstands : Stands source base (texts items))
    {found front : List (Replacement UInt16)}
    (hfound : found.Perm (front ++ replacementsAll l base items)) (hfront : Before base front) :
    moduleReplacements stringify (lower source found) index (statements items) =
      replacementsOf stringify l base index items := by
  induction items generalizing base index front with
  | nil => rfl
  | cons item rest ih =>
    obtain ⟨hitem, hrest⟩ := h
    have hmarked : Before (base + item.text.length)
        (item.marked.replacements l (base + item.head.length)) := by
      intro r hr
      have hr := Marked.within_replacements l hr
      simp only [Item.text, length_append]
      omega
    have hlower := fun s (hs : item.statement = some s) node (hnode : s.declaration = some node) =>
      lower_eq l hitem hstands.left hfound hfront (after_replacementsAll l _ rest) hs hnode
    have hfront' : Before (base + item.text.length)
        (front ++ item.marked.replacements l (base + item.head.length)) := by
      intro r hr
      rcases mem_append.mp hr with hr | hr
      · have hr := hfront r hr
        omega
      · exact hmarked r hr
    have ih := fun index => @ih _ index hrest hstands.right _
      (by rw [append_assoc]; exact hfound) hfront'
    rw [replacementsOf, Item.replacement, Item.bound, Item.nextIndex, statements,
      List.filterMap_cons]
    cases hs : item.statement with
    | none => exact ih index
    | some s =>
      have hbindings := bindings_congr stringify index (hlower s hs)
      have hone : moduleReplacement stringify (lower source found) index s =
          (bindings stringify index (fun _ => item.spliced l) s).map fun text =>
            ⟨base, base + item.text.length, text⟩ := by
        rw [moduleReplacement, hbindings]
        cases hrange : s.range with
        | none =>
          have hnone := bindings_isSome stringify index (fun _ => item.spliced l) s
          rw [hrange, Option.isSome_none, Option.isSome_eq_false_iff, Option.isNone_iff_eq_none]
            at hnone
          rw [hnone]
          rfl
        | some range =>
          obtain ⟨-, rfl⟩ := hitem.range s hs range hrange
          simp
      have ih := ih (DynamicImports.nextIndex index s)
      rw [statements] at ih
      rw [moduleReplacements, hone, ih]
      rfl

/-- Those of the declarations, and those of the expressions that lie in none of them, are what
    makes the stretches into what becomes of them. -/
theorem replacements_segmentsAll {items : List Item} {base index : ℕ} (h : Exact base items)
    {front : List (Replacement UInt16)} (hfront : Before base front) :
    (replacementsOf stringify l base index items ++
      (Segment.replacements base (items.flatMap (Item.marks l))).filter fun r =>
        !(front ++ replacementsOf stringify l base index items).any fun k => k.Encloses r).Perm
      (Segment.replacements base (segmentsAll stringify l index items)) := by
  induction items generalizing base index front with
  | nil => exact List.Perm.refl _
  | cons item rest ih =>
    obtain ⟨hitem, hrest⟩ := h
    -- `marked` are the outermost expressions of this stretch, `later` those of the rest
    rw [replacementsOf, flatMap_cons, Segment.replacements_append, Item.raws_marks,
      List.filter_append, segmentsAll, Segment.replacements_append, Item.raws_segments]
    have hmarks : ∀ r ∈ Segment.replacements base (item.marks l),
        (base : ℤ) ≤ r.start ∧ r.start < r.stop ∧ r.stop ≤ base + item.text.length := by
      intro r hr
      have hwithin := Segment.within_replacements hr
      rw [Item.raws_marks] at hwithin
      exact ⟨hwithin.1, Segment.nonempty_replacements (item.proper_marks l) r hr, hwithin.2⟩
    have hlater : After (base + item.text.length) (replacementsOf stringify l
        (base + item.text.length) (item.nextIndex index) rest) :=
      after_replacementsOf l hrest
    cases hbound : item.bound stringify index (item.spliced l) with
    | none =>
      have hnone : item.replacement stringify l base index = none := by
        rw [Item.replacement, hbound, Option.map_none]
      have hself : (Segment.replacements base (item.marks l)).filter (fun r =>
          !(front ++ replacementsOf stringify l (base + item.text.length) (item.nextIndex index)
            rest).any fun k => k.Encloses r) = Segment.replacements base (item.marks l) := by
        refine List.filter_eq_self.mpr ?_
        intro r hr
        have hr := hmarks r hr
        rw [Bool.not_eq_true', List.any_eq_false]
        intro k hk hkr
        obtain ⟨hstart, hstop⟩ := of_decide_eq_true hkr
        rcases mem_append.mp hk with hk | hk
        · have hk := hfront k hk
          omega
        · have hk := hlater k hk
          omega
      have hfront' : Before (base + item.text.length) front := by
        intro r hr
        have hr := hfront r hr
        omega
      rw [hnone, Option.toList_none, nil_append, hself, Item.segments, hbound, Option.map_none,
        Option.getD_none]
      exact (List.perm_append_comm_assoc _ _ _).trans ((ih hrest hfront').append_left _)
    | some text =>
      obtain ⟨own, hown⟩ : ∃ own : Replacement UInt16,
          own = ⟨base, base + item.text.length, text⟩ := ⟨_, rfl⟩
      have hsome : item.replacement stringify l base index = some own := by
        rw [Item.replacement, hbound, Option.map_some, hown]
      -- the declaration's own expressions lie within it
      have hnil : (Segment.replacements base (item.marks l)).filter (fun r =>
          !(front ++ ([own] ++ replacementsOf stringify l (base + item.text.length)
            (item.nextIndex index) rest)).any fun k => k.Encloses r) = [] := by
        refine List.filter_eq_nil_iff.mpr ?_
        intro r hr
        have hr := hmarks r hr
        have hin : own.Encloses r := by
          rw [hown]
          exact ⟨hr.1, hr.2.2⟩
        rw [Bool.not_eq_true', Bool.not_eq_false, List.any_eq_true]
        exact ⟨own, by simp, decide_eq_true hin⟩
      have hfront' : Before (base + item.text.length) (front ++ [own]) := by
        intro r hr
        rcases mem_append.mp hr with hr | hr
        · have hr := hfront r hr
          omega
        · rw [mem_singleton.mp hr, hown]
          have hlength := List.length_pos_iff.mpr (hitem.text_ne_nil hbound)
          simp only
          omega
      have ih := @ih _ (item.nextIndex index) hrest _ hfront'
      rw [append_assoc] at ih
      rw [hsome, Option.toList_some, hnil, nil_append, Item.segments, hbound, Option.map_some,
        Option.getD_some, append_assoc, Segment.replacements, Segment.replacements,
        Option.map_some, Option.toList_some, List.append_nil, ← hown]
      exact ih.append_left _

theorem proper_segmentsAll {items : List Item} {base index : ℕ} (h : Exact base items) :
    Segment.Proper (segmentsAll stringify l index items) := by
  induction items generalizing base index with
  | nil => exact fun s hs => absurd hs not_mem_nil
  | cons item rest ih =>
    obtain ⟨hitem, hrest⟩ := h
    intro s hs
    rcases mem_append.mp hs with hs | hs
    · rw [Item.segments] at hs
      cases hbound : item.bound stringify index (item.spliced l) with
      | none =>
        rw [hbound] at hs
        exact item.proper_marks l s hs
      | some text =>
        rw [hbound] at hs
        rw [mem_singleton.mp hs]
        exact fun _ => hitem.text_ne_nil hbound
    · exact ih hrest s hs

theorem raws_segmentsAll (items : List Item) (index : ℕ) :
    Segment.raws (segmentsAll stringify l index items) = texts items := by
  induction items generalizing index with
  | nil => rfl
  | cons item rest ih =>
    rw [segmentsAll, Segment.raws_append, Item.raws_segments, ih]
    rfl

/-- What a module's source becomes. -/
theorem compile_module_body {items : List Item} {source : Text}
    (h : Exact 0 items) (hsource : commentHashbang source = texts items) (referrer : Text) :
    (wasmer_napi_compile_module stringify (statements items) source referrer).body =
      Segment.results (segmentsAll stringify (moduleDialect referrer) 0 items) := by
  have hfound : ∀ source : Text,
      (traverseAll (visitModule source referrer) ((statements items).map Statement.node)
        {}).replacements =
      (Node.expressionsAll (items.flatMap Item.nodes)).filterMap
        (replaceNode (moduleDialect referrer) source 0) := by
    intro source
    rw [@traverseAll_eq _ _ _ Found.replacements
      ( fun node => (syntaxReplacement source referrer node).toList) (fun _ _ _ => rfl)
      fun _ _ _ _ => rfl, nodes_statements, nil_append, List.filterMap_eq_flatMap_toList]
    simp only [syntaxReplacement_eq]
  have hreplaced := replace_exact (moduleDialect referrer) h (Stands.refl _)
  have hall : ((Node.expressionsAll (items.flatMap Item.nodes)).filterMap
      (replaceNode (moduleDialect referrer) (texts items) 0)).Perm
      ([] ++ replacementsAll (moduleDialect referrer) 0 items) := by
    rw [Node.expressionsAll_eq]
    exact (((List.reverse_perm _).flatMap_right _).filterMap _).trans hreplaced
  have hnone : Before 0 [] := fun r hr => absurd hr not_mem_nil
  have hmodule := @moduleReplacements_eq stringify (moduleDialect referrer) _ items 0 0 h
    (Stands.refl _) _ [] hall hnone
  have hkept := unenclosed_exact (moduleDialect referrer) h rfl
    (replacementsOf stringify (moduleDialect referrer) 0 0 items)
  have hperm := hkept.trans (@replacements_segmentsAll stringify (moduleDialect referrer) items 0 0 h
    [] hnone)
  rw [wasmer_napi_compile_module]
  simp only [hsource, hfound]
  rw [hmodule, ← @raws_segmentsAll stringify (moduleDialect referrer) items 0]
  exact Segment.spliceApart_descending (proper_segmentsAll (moduleDialect referrer) h)
    (by rw [raws_segmentsAll]; exact hperm)

end Modules

/-! ## Modules are lowered -/

theorem Marked.isPlain_of_describes {m : Marked true} {base : ℕ} (h : m.Describes base []) :
    m.isPlain = true := by
  induction m generalizing base with
  | nil => rfl
  | unit c rest ih => exact ih h
  | importMeta hm tail rest _ =>
    obtain ⟨others, hperm, -⟩ := h
    exact absurd hperm.symm (List.cons_ne_nil _ _ ∘ List.Perm.eq_nil)
  | importCall head specifier tail rest _ _ =>
    obtain ⟨node, others, hperm, -⟩ := h
    exact absurd hperm.symm (List.cons_ne_nil _ _ ∘ List.Perm.eq_nil)
  | importCallWith head specifier middle options tail rest _ _ _ =>
    obtain ⟨node, node', others, hperm, -⟩ := h
    exact absurd hperm.symm (List.cons_ne_nil _ _ ∘ List.Perm.eq_nil)

theorem Marked.isFlat_of_isPlain {m : Marked true} (h : m.isPlain = true) : m.isFlat = true := by
  induction m with
  | nil => rfl
  | unit c rest ih => exact ih h
  | importMeta _ _ _ _ => cases h
  | importCall _ _ _ _ _ _ => cases h
  | importCallWith _ _ _ _ _ _ _ _ _ => cases h

theorem bindings_differ (stringify : Stringify) (index : ℕ) {s : Statement} {node : Node}
    (hnode : s.declaration = some node) {t t' : Text} (h : Differ t t') :
    ∃ a b, bindings stringify index (fun _ => t) s = some a ∧
      bindings stringify index (fun _ => t') s = some b ∧ Differ a b := by
  cases s with
  | exportDefault _ _ declaration id =>
    cases id with
    | none =>
      refine ⟨_, _, rfl, rfl, ?_⟩
      rw [append_assoc, append_assoc]
      exact (h.append _ _).prepend _
    | some id =>
      refine ⟨_, _, rfl, rfl, ?_⟩
      simp only [append_assoc]
      exact h.append _ _
  | exportDeclaration _ _ declaration names =>
    refine ⟨_, _, rfl, rfl, ?_⟩
    simp only [append_assoc]
    exact h.append _ _
  | plain _ => cases hnode
  | importDeclaration _ _ _ _ _ => cases hnode
  | exportFrom _ _ _ _ _ => cases hnode
  | exportList _ _ _ => cases hnode
  | exportAll _ _ _ _ _ => cases hnode

section Lowered

variable {stringify : Stringify} {l : Dialect}

theorem Item.results_of_isFlat {item : Item} (h : item.marked.isFlat = true) (index : ℕ) :
    Segment.results (item.segments stringify l index) = item.lowered stringify l index := by
  have hspliced : item.spliced l = item.marked.lowered l := by
    simpa [Item.spliced] using item.marked.splice_of_isFlat l h [] []
  rw [Item.segments, Item.lowered, hspliced]
  cases item.bound stringify index (item.marked.lowered l) with
  | none => simp [Item.marks, Segment.result, Marked.results_of_isFlat l h]
  | some text => simp [Segment.result]

theorem Item.results_differ {item : Item} {base : ℕ} (hitem : item.Exact base)
    (h : item.marked.isFlat = false) (index : ℕ) :
    Differ (Segment.results (item.segments stringify l index))
      (item.lowered stringify l index) := by
  rw [Item.segments, Item.lowered]
  cases hbound : item.bound stringify index (item.spliced l) with
  | none =>
    -- a statement that is no declaration: the outermost of its expressions are replaced
    have hnone : item.bound stringify index (item.marked.lowered l) = none := by
      rw [Item.bound, Option.bind_eq_none_iff] at hbound ⊢
      intro s hs
      have hsome := bindings_isSome stringify index (fun _ => item.spliced l) s
      rw [hbound s hs, ← bindings_isSome stringify index (fun _ => item.marked.lowered l)] at hsome
      exact Option.isNone_iff_eq_none.mp (by rw [← Option.not_isSome, ← hsome]; rfl)
    have hd := (Marked.results_differ l h).append item.tail item.tail
    rw [hnone, Option.map_none, Option.getD_none, Option.getD_none, append_assoc]
    simpa [Item.marks, Segment.result] using hd.prepend item.head
  | some text =>
    obtain ⟨s, hs, hbindings⟩ := Option.bind_eq_some_iff.mp hbound
    -- it declares something, since it has expressions
    obtain ⟨node, hnode⟩ : ∃ node, s.declaration = some node := by
      by_contra hnone
      have hnil : s.node.outermost = [] := by
        cases s with
        | plain _ => cases hbindings
        | exportDefault _ _ node _ => exact absurd ⟨node, rfl⟩ hnone
        | exportDeclaration _ _ node _ => exact absurd ⟨node, rfl⟩ hnone
        | _ => rfl
      have hdescribes := hitem.describes
      rw [Item.nodes, hs, Option.map_some, Option.toList_some, Node.outermostAll,
        Node.outermostAll, hnil] at hdescribes
      rw [Marked.isFlat_of_isPlain (Marked.isPlain_of_describes hdescribes)] at h
      cases h
    obtain ⟨t, ht, hd⟩ := item.marked.splice_differ l h [] []
    have hspliced : item.spliced l = t := by simpa [Item.spliced] using ht
    obtain ⟨a, b, ha, hb, hab⟩ := bindings_differ stringify index hnode hd
    rw [hspliced, ha] at hbindings
    rw [Item.bound, hs, Option.bind_some, hb, ← Option.some.inj hbindings]
    simpa [Segment.result] using hab

theorem results_of_isFlat {items : List Item} (h : ∀ item ∈ items, item.marked.isFlat = true)
    (index : ℕ) :
    Segment.results (segmentsAll stringify l index items) = loweredAll stringify l index items := by
  induction items generalizing index with
  | nil => rfl
  | cons item rest ih =>
    obtain ⟨hitem, hrest⟩ := List.forall_mem_cons.mp h
    rw [segmentsAll, loweredAll, Segment.results_append, Item.results_of_isFlat hitem,
      ih hrest]

theorem results_differ {items : List Item} {base : ℕ} (hexact : Exact base items)
    (h : ¬ ∀ item ∈ items, item.marked.isFlat = true) (index : ℕ) :
    Differ (Segment.results (segmentsAll stringify l index items))
      (loweredAll stringify l index items) := by
  induction items generalizing base index with
  | nil => exact absurd (fun _ hitem => absurd hitem not_mem_nil) h
  | cons item rest ih =>
    obtain ⟨hitem, hrest⟩ := hexact
    rw [segmentsAll, loweredAll, Segment.results_append]
    cases hflat : item.marked.isFlat with
    | false => exact (Item.results_differ hitem hflat index).append _ _
    | true =>
      rw [Item.results_of_isFlat hflat]
      refine (ih hrest ?_ _).prepend _
      intro hall
      exact h (List.forall_mem_cons.mpr ⟨hflat, hall⟩)

theorem compile_module_iff {items : List Item} {source : Text} (h : Exact 0 items)
    (hsource : commentHashbang source = texts items) (referrer : Text) :
    (wasmer_napi_compile_module stringify (statements items) source referrer).body =
      loweredAll stringify (moduleDialect referrer) 0 items ↔
      ∀ item ∈ items, item.marked.isFlat = true := by
  rw [compile_module_body h hsource]
  constructor
  · intro heq
    by_contra hflat
    exact (results_differ h hflat 0).ne heq
  · intro hflat
    exact results_of_isFlat hflat 0

end Lowered

/-- Both give the text with every expression lowered, its arguments first, for those sources in
    which no expression lies in the arguments of another. -/
theorem lowered_iff_isFlat (referrer : Text) (stringify : Stringify) :
    (∀ (m : Marked false) (offset : ℕ) (program : Node), m.Describes offset program.outermost →
      (wasmerNapiLowerDynamicImports offset program m.text referrer =
        .ok (m.lowered (functionDialect referrer)) ↔ m.isFlat = true)) ∧
    (∀ (items : List Item) (source : Text), Exact 0 items →
      commentHashbang source = texts items →
      ((wasmer_napi_compile_module stringify (statements items) source referrer).body =
        loweredAll stringify (moduleDialect referrer) 0 items ↔
        ∀ item ∈ items, item.marked.isFlat = true)) :=
  ⟨fun _ _ _ h => lowerDynamicImports_iff h referrer,
    fun _ _ h hsource => compile_module_iff h hsource referrer⟩

/-- `text` before what follows it. -/
def Marked.prepend {isModule : Bool} (text : Text) (rest : Marked isModule) : Marked isModule :=
  text.foldr .unit rest

/-- `import('a');`, with `(function() {` and a line break before it. -/
def callText : Marked false :=
  .importCall (units "(") (.prepend (units "'a'") .nil) (units ")") (.prepend (units ";") .nil)

def callProgram : Node :=
  .other .plain 0 27 [.other .function 1 26 [.other .plain 13 24
    [.importExpression 13 24 (.other .plain 20 23 []) none]]]

/-- `export default import.meta;` -/
def exportItems : List Item :=
  [⟨units "export default ", .importMeta rfl (units ".meta") .nil, units ";",
    some (.exportDefault 0 27 (.importMeta 15 26) none)⟩]

theorem lowered_iff_isFlat_export :
    wasmerNapiLowerDynamicImports 13 callProgram callText.text (units "\"f\"") =
        .ok (callText.lowered (functionDialect (units "\"f\""))) ∧
      (wasmer_napi_compile_module id (statements exportItems) (texts exportItems)
        (units "\"f\"")).body =
        loweredAll id (moduleDialect (units "\"f\"")) 0 exportItems := by
  obtain ⟨hfunction, hmodule⟩ := lowered_iff_isFlat (units "\"f\"") id
  constructor
  · apply (hfunction callText 13 callProgram ?_).mpr
    · decide
    · exact ⟨.other .plain 20 23 [], [], List.Perm.refl _, rfl, rfl, rfl, rfl⟩
  · apply (hmodule exportItems (texts exportItems) ?_ ?_).mpr
    · decide
    · refine ⟨⟨⟨[], List.Perm.refl _, rfl⟩, ?_, ?_⟩, trivial⟩
      · intro s hs range hrange
        cases hs
        cases hrange
        exact ⟨by decide, by decide⟩
      · intro s hs node hnode
        cases hs
        cases hnode
        exact ⟨by decide, by decide⟩
    · decide

/-- `import(import.meta.url);` -/
def nestedItems : List Item :=
  [⟨[], .importCall (units "(") (.importMeta rfl (units ".meta") (.prepend (units ".url") .nil))
    (units ")") (.prepend (units ";") .nil), [],
    some (.plain (.other .plain 0 24 [.importExpression 0 23
      (.other .plain 7 22 [.importMeta 7 18, .other .plain 19 22 []]) none]))⟩]

/-- An `import.meta` in the specifier is left as it is, and the function made of the text is no
    module that could have one. -/
theorem nested_not_lowered :
    (Exact 0 nestedItems ∧ commentHashbang (texts nestedItems) = texts nestedItems) ∧
      (wasmer_napi_compile_module id (statements nestedItems) (texts nestedItems)
        (units "\"f\"")).body =
        dynamicImport (units "import.meta.url,\"f\"") ++ units ";" ∧
      (wasmer_napi_compile_module id (statements nestedItems) (texts nestedItems)
        (units "\"f\"")).body ≠
        loweredAll id (moduleDialect (units "\"f\"")) 0 nestedItems := by
  refine ⟨⟨⟨⟨?_, ?_, ?_⟩, trivial⟩, ?_⟩, ?_, ?_⟩
  · exact ⟨_, [], List.Perm.refl _, rfl, rfl, ⟨[], List.Perm.refl _, rfl⟩, rfl⟩
  · intro s hs range hrange
    cases hs
    cases hrange
  · intro s hs node hnode
    cases hs
    cases hnode
  · decide
  · decide
  · decide

end WasmerNapi.HostJs.DynamicImports
