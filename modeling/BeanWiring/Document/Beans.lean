/-
# Documents that declare beans

What the elements of a beans document mean: each becomes an event or a part of a
declaration, and each mistake a problem, in document order.

Elements without namespace and elements of the beans namespace declare beans; those of
any other namespace are components.  Names and aliases of beans must differ within a
document, inner beans apart; `freshName` makes up names for beans without one.
-/
import BeanWiring.Document.Event
import BeanWiring.Markup.Element
import BeanWiring.Placeholder

namespace BeanWiring.Document

open Markup Text

/-! ## Names and numbers -/

/-- The namespace of the elements that declare beans. -/
def beansNamespace : String := "http://www.springframework.org/schema/beans"

/-- The name of beans inside a value that have none of their own. -/
def innerBeanName : String := "(inner bean)"

/-- Whether the element belongs to the beans namespace, or to none. -/
def inBeansNamespace (e : Element) : Bool :=
  match e.namespaceUri with
  | none => true
  | some uri => uri = "" || uri = beansNamespace

/-- Whether the element is the element `localName` of a beans document. -/
def isBeansElement (localName : String) (e : Element) : Bool :=
  inBeansNamespace e && e.localName = localName

/-- The names in a list separated by commas, semicolons and spaces. -/
def splitNames (names : String) : List String :=
  ((splitBy (fun c => c = ',' || c = ';' || c = ' ') names.toList).map fun piece =>
    String.ofList (trimChars piece)).filter (· ≠ "")

/-- Reads an index: digits after an optional plus sign, below two to the power of 64. -/
def readIndex? (s : String) : Option Nat :=
  let digits := match s.toList with
    | '+' :: rest => rest
    | chars => chars
  if digits.isEmpty then none else (readDigits 10 0x10000000000000000 0 digits).toOption

/-- The candidates for a made-up name: `base#0`, `base#1`, … -/
def numberedName (base : String) (n : Nat) : String :=
  base ++ "#" ++ toString n

/-- The first candidate that is not in use. -/
def freshName (base : String) (used : List String) : String :=
  (((List.range (used.length + 1)).map (numberedName base)).find? (· ∉ used)).getD base

/-- What a made-up name is based on: the class, the parent or the factory of a bean. -/
def nameBase {V : Type} (d : Definition V) : String :=
  match d.className, d.parent, d.factoryBean with
  | some className, _, _ => className
  | none, some parent, _ => parent ++ "$child"
  | none, none, some factory => factory ++ "$created"
  | none, none, none => "bean"

/-! ## The state of a reading -/

/-- What has been read so far: the events, and the names in use. -/
structure Reading where
  events : List Event := []
  used : List String := []

/-- A step of a reading. -/
abbrev Reader := StateM Reading

/-- Appends an event. -/
def emit (event : Event) : Reader Unit :=
  modify fun r => { r with events := r.events ++ [event] }

/-- The location of an element of `resource`. -/
def locationOf (resource : String) (e : Element) : Location :=
  .ofLines resource e.startLine e.endLine

/-- Reports an error about an element. -/
def reportError (resource : String) (e : Element) (message : String) : Reader Unit :=
  emit (.problem ⟨.error, message, locationOf resource e⟩)

/-- Reports a warning about an element. -/
def reportWarning (resource : String) (e : Element) (message : String) : Reader Unit :=
  emit (.problem ⟨.warning, message, locationOf resource e⟩)

/-- Takes a name into use, and reports it if it was in use before. -/
def claimName (resource : String) (e : Element) (name : String) : Reader Unit := do
  if name ∈ (← get).used then
    reportError resource e ("Bean name '" ++ name ++ "' is already used in this <beans> element")
  else
    modify fun r => { r with used := r.used ++ [name] }

/-- Takes names into use from left to right. -/
def claimNames (resource : String) (e : Element) : List String → Reader Unit
  | [] => pure ()
  | name :: names => do
    claimName resource e name
    claimNames resource e names

/-! ## Flat parts of a bean element -/

/-- The definition of a bean element as far as its attributes declare it. -/
def attributesDefinition (resource : String) (e : Element) : Definition (Value Declaration) where
  className := e.filledAttribute? "class"
  parent := e.filledAttribute? "parent"
  isAbstract := e.attribute? "abstract" = some "true"
  lazyInit := match e.attribute? "lazy-init" with
    | some "true" => some true
    | some "false" => some false
    | _ => none
  scope :=
    if e.attribute? "singleton" = some "false" then some "prototype"
    else e.filledAttribute? "scope"
  autowire := (e.attribute? "autowire").bind Autowire.ofName?
  dependencyCheck := (e.filledAttribute? "dependency-check").filter (· ≠ "default")
  role := (e.attribute? "role").bind Role.ofName?
  dependsOn := ((e.attribute? "depends-on").map splitNames).getD []
  factoryBean := e.filledAttribute? "factory-bean"
  factoryMethod := e.filledAttribute? "factory-method"
  initMethod := e.filledAttribute? "init-method"
  destroyMethod := e.filledAttribute? "destroy-method"
  location := locationOf resource e

/-- Reads a method override, whose supplying bean stands in the attribute `key`. -/
def readOverride (resource : String) (kind : OverrideKind) (tag key : String) (e : Element)
    (d : Definition (Value Declaration)) : Reader (Definition (Value Declaration)) := do
  match e.filledAttribute? "name", e.filledAttribute? key with
  | some method, some bean =>
    return { d with overrides := d.overrides ++ [⟨kind, method, bean, locationOf resource e⟩] }
  | _, _ =>
    reportError resource e
      ("Tag '" ++ tag ++ "' requires 'name' and '" ++ key ++ "' attributes")
    return d

/-- Adds a constructor argument that has its value, at the index it declares. -/
def addArgument (resource : String) (e : Element) (value : Value Declaration)
    (d : Definition (Value Declaration)) : Reader (Definition (Value Declaration)) := do
  let argument : Argument (Value Declaration) :=
    ⟨e.filledAttribute? "type", e.filledAttribute? "name", value, locationOf resource e⟩
  match e.filledAttribute? "index" with
  | none => return { d with arguments := d.arguments.add none argument }
  | some text =>
    match readIndex? text with
    | none =>
      reportError resource e "Attribute 'index' of tag 'constructor-arg' must be an integer"
      return d
    | some index =>
      if d.arguments.hasIndex index then
        reportError resource e
          ("Ambiguous constructor-arg entries for index " ++ toString index)
        return d
      else
        return { d with arguments := d.arguments.add (some index) argument }

/-- The entries of a table of texts; an entry without key is passed over. -/
def tableEntries (children : List Element) : List (String × String) :=
  (children.filter (isBeansElement "prop")).filterMap fun e =>
    (e.filledAttribute? "key").map fun key => (key, trim e.text)

/-- The bean that a reference element names in one of two attributes. -/
def namedBean? (e : Element) : Option String :=
  (e.filledAttribute? "bean").or (e.filledAttribute? "local")

/-- Whether a child of a property element can be its value. -/
def isValuePart (e : Element) : Bool :=
  !(inBeansNamespace e && (e.localName = "description" || e.localName = "meta"))

/-- Names the bean of an element: by its `id`, by the first of its names, or by a made-up
name.  An inner bean claims no names. -/
def nameBean (resource : String) (isInner : Bool) (e : Element)
    (definition : Definition (Value Declaration)) : Reader Declaration := do
  let names := ((e.attribute? "name").map splitNames).getD []
  let (name, aliases) ← match e.filledAttribute? "id", names with
    | some id, names => pure (id, names)
    | none, name :: rest => pure (name, rest)
    | none, [] =>
      if isInner then pure (innerBeanName, [])
      else pure (freshName (nameBase definition) (← get).used, [])
  if !isInner then
    claimNames resource e (name :: aliases)
  return ⟨name, aliases, definition⟩

/-! ## Beans and values -/

mutual

/-- Reads the children of a bean element into its definition. -/
def readParts (resource : String) (d : Definition (Value Declaration)) :
    List Element → Reader (Definition (Value Declaration))
  | [] => return d
  | e :: rest => do
    let d ←
      if isBeansElement "constructor-arg" e then
        addArgument resource e (← readContent resource "<constructor-arg> element" e) d
      else if isBeansElement "property" e then
        match e.filledAttribute? "name" with
        | none =>
          reportError resource e "Tag 'property' must have a 'name' attribute"
          pure d
        | some name =>
          if (d.property? name).isSome then
            reportError resource e
              ("Multiple 'property' definitions for property '" ++ name ++ "'")
            pure d
          else
            let value ←
              readContent resource ("<property> element for property '" ++ name ++ "'") e
            pure (d.addProperty ⟨name, value, locationOf resource e⟩)
      else if isBeansElement "lookup-method" e then
        readOverride resource .lookup "lookup-method" "bean" e d
      else if isBeansElement "replaced-method" e then
        readOverride resource .replacer "replaced-method" "replacer" e d
      else
        pure d
    readParts resource d rest

/-- Reads what an argument or property element holds: a reference, a literal or the value of
its first child that can be one. -/
def readContent (resource what : String) : Element → Reader (Value Declaration)
  | e@⟨_, _, _, children, _, _, _⟩ => do
    let hasRef := e.hasAttribute "ref"
    let hasValue := e.hasAttribute "value"
    if (hasRef && hasValue) || ((hasRef || hasValue) && children.any isValuePart) then
      reportError resource e
        (what ++ " is only allowed to contain either 'ref' attribute OR " ++
          "'value' attribute OR sub-element")
    if hasRef then
      match e.filledAttribute? "ref" with
      | some name => return .reference name false
      | none =>
        reportError resource e (what ++ " contains empty 'ref' attribute")
        return .null
    else
      match e.attribute? "value" with
      | some text => return .literal text none
      | none =>
        match ← readFirst resource isValuePart children with
        | some value => return value
        | none =>
          reportError resource e (what ++ " must specify a ref or value")
          return .null

/-- Reads the first element that satisfies `p` as a value. -/
def readFirst (resource : String) (p : Element → Bool) :
    List Element → Reader (Option (Value Declaration))
  | [] => return none
  | e :: rest => if p e then some <$> readValue resource e else readFirst resource p rest

/-- Reads an element as a value; those of other namespaces say nothing. -/
def readValue (resource : String) : Element → Reader (Value Declaration)
  | e@⟨_, _, _, children, _, _, _⟩ => do
    if !inBeansNamespace e then
      return .null
    match e.localName with
    | "bean" =>
      let definition ← readParts resource (attributesDefinition resource e) children
      return .nested (← nameBean resource true e definition)
    | "ref" =>
      match namedBean? e, e.filledAttribute? "parent" with
      | some name, _ => return .reference name false
      | none, some name => return .reference name true
      | none, none =>
        reportError resource e "'bean', 'local' or 'parent' is required for <ref> element"
        return .null
    | "idref" =>
      match namedBean? e with
      | some name => return .nameReference name
      | none =>
        reportError resource e "Either 'bean' or 'local' is required for <idref> element"
        return .null
    | "value" => return .literal e.text (e.filledAttribute? "type")
    | "null" => return .null
    | "list" => return .list (← readItems resource children)
    | "array" => return .list (← readItems resource children)
    | "set" => return .set (← readItems resource children)
    | "map" => return .map (← readEntries resource children)
    | "props" => return .properties (tableEntries children)
    | other =>
      reportError resource e ("Unknown property sub-element: <" ++ other ++ ">")
      return .null

/-- Reads the items of a collection; a description is none. -/
def readItems (resource : String) : List Element → Reader (List (Value Declaration))
  | [] => return []
  | e :: rest => do
    if isBeansElement "description" e then
      readItems resource rest
    else
      let value ← readValue resource e
      return value :: (← readItems resource rest)

/-- Reads the entries of a map; other children are passed over. -/
def readEntries (resource : String) :
    List Element → Reader (List (Value Declaration × Value Declaration))
  | [] => return []
  | e :: rest => do
    if isBeansElement "entry" e then
      let entry ← readEntry resource e
      return entry :: (← readEntries resource rest)
    else
      readEntries resource rest

/-- Reads the key and then the value of a map entry. -/
def readEntry (resource : String) : Element → Reader (Value Declaration × Value Declaration)
  | e@⟨_, _, _, children, _, _, _⟩ => do
    let key ← match e.attribute? "key", e.filledAttribute? "key-ref" with
      | some key, _ => pure (.literal key none)
      | none, some bean => pure (.reference bean false)
      | none, none =>
        match ← readKey resource children with
        | some key => pure key
        | none =>
          reportError resource e "<entry> element must specify a key"
          pure .null
    let value ← match e.attribute? "value", e.filledAttribute? "value-ref" with
      | some value, _ => pure (.literal value none)
      | none, some bean => pure (.reference bean false)
      | none, none =>
        match ← readFirst resource (fun c => !isBeansElement "key" c) children with
        | some value => pure value
        | none =>
          reportError resource e "<entry> element must specify a value"
          pure .null
    return (key, value)

/-- Reads the first child of the first key element. -/
def readKey (resource : String) : List Element → Reader (Option (Value Declaration))
  | [] => return none
  | e@⟨_, _, _, children, _, _, _⟩ :: rest =>
    if isBeansElement "key" e then readFirst resource (fun _ => true) children
    else readKey resource rest

end

/-- Reads a bean element that stands on its own. -/
def readBean (resource : String) (e : Element) : Reader Declaration := do
  let definition ← readParts resource (attributesDefinition resource e) e.children
  nameBean resource false e definition

/-! ## Components and documents -/

mutual

/-- Reads an element of a foreign namespace. -/
def readComponent (resource : String) : Element → Reader ComponentDeclaration
  | e@⟨_, _, _, children, _, _, _⟩ => do
    let (beans, nested) ← readMembers resource children
    return {
      name := (e.filledAttribute? "id").getD e.localName
      namespaceUri := e.namespaceUri.getD ""
      attributes := e.attributes
      beans
      nested
      location := locationOf resource e }

/-- Reads the beans and components inside a component. -/
def readMembers (resource : String) :
    List Element → Reader (List Declaration × List ComponentDeclaration)
  | [] => return ([], [])
  | e :: rest => do
    if isBeansElement "bean" e then
      let bean ← readBean resource e
      let (beans, nested) ← readMembers resource rest
      return (bean :: beans, nested)
    else if !inBeansNamespace e then
      let component ← readComponent resource e
      let (beans, nested) ← readMembers resource rest
      return (beans, component :: nested)
    else
      readMembers resource rest

end

/-- Reads an alias element. -/
def readAlias (resource : String) (e : Element) : Reader Unit :=
  match e.filledAttribute? "name", e.filledAttribute? "alias" with
  | some beanName, some name => emit (.aliasing name beanName (locationOf resource e))
  | none, _ => reportError resource e "Name must not be empty"
  | some _, none => reportError resource e "Alias must not be empty"

/-- The message of an import whose target is completed elsewhere. -/
def placeholderImport : String := "Resource location contains placeholder"

/-- Reads an import element. -/
def readImport (resource : String) (e : Element) : Reader Unit :=
  match e.filledAttribute? "resource" with
  | none => reportError resource e "Resource location must not be empty"
  | some target =>
    if hasPlaceholder target then reportWarning resource e placeholderImport
    else emit (.importing target (locationOf resource e))

/-- Reads the children of a beans element; beans elements inside it count as part of it. -/
def readTopLevel (resource : String) : List Element → Reader Unit
  | [] => pure ()
  | e@⟨_, _, _, children, _, _, _⟩ :: rest => do
    if !inBeansNamespace e then
      emit (.component (← readComponent resource e))
    else
      match e.localName with
      | "bean" => emit (.bean (← readBean resource e))
      | "alias" => readAlias resource e
      | "import" => readImport resource e
      | "beans" => readTopLevel resource children
      | "description" => pure ()
      | other => reportWarning resource e ("Unexpected element '" ++ other ++ "'")
    readTopLevel resource rest

/-- The defaults that a root element declares. -/
def readDefaults (root : Element) : DocumentDefaults :=
  let standard : DocumentDefaults := {}
  { lazyInit := (root.filledAttribute? "default-lazy-init").getD standard.lazyInit
    autowire := (root.filledAttribute? "default-autowire").getD standard.autowire
    dependencyCheck :=
      (root.filledAttribute? "default-dependency-check").getD standard.dependencyCheck
    initMethod := root.filledAttribute? "default-init-method"
    destroyMethod := root.filledAttribute? "default-destroy-method"
    merge := (root.filledAttribute? "default-merge").getD standard.merge }

/-- The events of a document with the given root element. -/
def eventsOfRoot (resource : String) (root : Element) : List Event :=
  if isBeansElement "beans" root then
    ((readTopLevel resource root.children).run
      { events := [.defaults (readDefaults root)] }).2.events
  else
    [.fatal ⟨.error,
      "Unable to locate bean definitions root element, found '" ++ root.localName ++ "'",
      locationOf resource root⟩]

/-- The events of a document; broken markup leaves a single fatal one. -/
def events (resource content : String) : List Event :=
  match parse content with
  | .ok root => eventsOfRoot resource root
  | .error found =>
    [.fatal ⟨.error, found.fault.message, .atLine resource found.line⟩]

end BeanWiring.Document
