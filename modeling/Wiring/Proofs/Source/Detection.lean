import Wiring.Source.Selection

/-!
The dialect told from a text against the readers that accept it. A document opens with
markup behind white space, so a text that a markup reader accepts is taken for markup,
and the namespace of its root tells the dialect of the reader. Only a byte order mark
comes in between: a document may begin with one, but to detection it is neither blank nor
markup.
-/

namespace Wiring

namespace Xml

theorem isBlank_of_isSpace {c : Char} (hspace : isSpace c) : Text.isBlank c := by
  simp only [isSpace, Bool.or_eq_true, beq_iff_eq] at hspace
  rcases hspace with ((rfl | rfl) | rfl) | rfl <;> rfl

/-- Text that is taken reaches up to the next markup. -/
theorem takeText?_eq_some {cs rest : List Char} {token : Token}
    (htaken : takeText? cs = some (token, rest)) :
    token = .text (cs.takeWhile (· != '<')) ∧ rest = cs.dropWhile (· != '<') := by
  have hsplit : cs.takeWhile (· != '<') ++ cs.dropWhile (· != '<') = cs :=
    List.takeWhile_append_dropWhile
  rw [takeText?] at htaken
  split at htaken
  · obtain ⟨rfl, rfl⟩ := Prod.mk.inj (Option.some.inj htaken)
    refine ⟨rfl, ?_⟩
    exact (congrArg (List.drop _) hsplit.symm).trans List.drop_left
  · cases htaken

/-- The tokens of a text that does not begin with markup are that text up to the next
markup and the tokens from there. -/
theorem tokensFrom?_text {fuel : Nat} {c : Char} {cs : List Char} {tokens : List Token}
    (hc : c ≠ '<') (htokens : tokensFrom? (fuel + 1) (c :: cs) = some tokens) :
    ∃ more, tokensFrom? fuel ((c :: cs).dropWhile (· != '<')) = some more ∧
      tokens = .text ((c :: cs).takeWhile (· != '<')) :: more := by
  rw [tokensFrom?] at htokens
  · obtain ⟨⟨token, rest⟩, htaken, htokens⟩ := Option.bind_eq_some_iff.mp htokens
    obtain ⟨more, hmore, htokens⟩ := Option.bind_eq_some_iff.mp htokens
    cases htokens
    obtain ⟨rfl, rfl⟩ := takeText?_eq_some htaken
    exact ⟨more, hmore, rfl⟩
  · exact nofun
  · exact fun rest hcons => hc (List.cons.inj hcons).1

theorem rootOf?_text {chars : List Char} {tokens : List Token} {root : Node}
    (hroot : rootOf? (.text chars :: tokens) = some root) :
    (∀ c ∈ chars, isSpace c) ∧ rootOf? tokens = some root := by
  rw [rootOf?] at hroot
  · split at hroot
    · rename_i hspaces
      exact ⟨List.all_eq_true.mp hspaces, hroot⟩
    · cases hroot
  · exact nofun

/-- White space up to the next markup is blank. -/
theorem dropBlank_of_takeWhile {cs : List Char}
    (hspaces : ∀ c ∈ cs.takeWhile (· != '<'), isSpace c) :
    Text.dropBlank cs = Text.dropBlank (cs.dropWhile (· != '<')) := by
  conv =>
    lhs
    rw [← List.takeWhile_append_dropWhile (p := (· != '<')) (l := cs)]
  exact List.dropWhile_append_of_pos fun c hc => isBlank_of_isSpace (hspaces c hc)

theorem not_root_of_nil {fuel : Nat} {tokens : List Token} {root : Node}
    (htokens : tokensFrom? fuel [] = some tokens) : rootOf? tokens ≠ some root := by
  rw [tokensFrom?] at htokens
  cases htokens
  exact nofun

/-- If the tokens of a text have a root, there is nothing but white space in it before the
first markup. -/
theorem head?_dropBlank_of_tokensFrom? {fuel : Nat} {cs : List Char} {tokens : List Token}
    {root : Node} (htokens : tokensFrom? fuel cs = some tokens)
    (hroot : rootOf? tokens = some root) : (Text.dropBlank cs).head? = some '<' := by
  cases cs with
  | nil => exact absurd hroot (not_root_of_nil htokens)
  | cons c cs =>
    cases fuel with
    | zero => cases htokens
    | succ fuel =>
      by_cases hc : c = '<'
      · subst hc
        rfl
      · obtain ⟨more, hmore, rfl⟩ := tokensFrom?_text hc htokens
        obtain ⟨hspaces, hroot⟩ := rootOf?_text hroot
        rw [dropBlank_of_takeWhile hspaces]
        cases hrest : (c :: cs).dropWhile (· != '<') with
        | nil =>
          rw [hrest] at hmore
          exact absurd hroot (not_root_of_nil hmore)
        | cons d ds =>
          have hstop := List.head?_dropWhile_not (· != '<') (c :: cs)
          rw [hrest] at hstop
          obtain rfl : d = '<' := by simpa using hstop
          rfl

theorem head?_of_skipDeclaration? {cs rest : List Char} (hskip : skipDeclaration? cs = some rest) :
    cs.head? = some '<' ∨ rest = cs := by
  rw [skipDeclaration?] at hskip
  split at hskip
  · rename_i hdeclaration
    obtain ⟨more, rfl⟩ := List.isPrefixOf_iff_prefix.mp hdeclaration
    exact Or.inl rfl
  · exact Or.inr (Option.some.inj hskip).symm

/-- A document begins with a byte order mark, or there is nothing but white space in it
before the first markup. -/
theorem head?_of_parse? {s : String} {root : Node} (hparse : parse? s = some root) :
    s.toList.head? = some '\uFEFF' ∨ (Text.trimStart s).toList.head? = some '<' := by
  obtain ⟨tokens, htokens, hroot⟩ := Option.bind_eq_some_iff.mp hparse
  rw [tokens?] at htokens
  split at htokens
  · rename_i cs hmark
    exact Or.inl (congrArg List.head? hmark)
  · obtain ⟨rest, hskip, htokens⟩ := Option.bind_eq_some_iff.mp htokens
    refine Or.inr ?_
    rw [Text.trimStart, String.toList_ofList]
    rcases head?_of_skipDeclaration? hskip with hmarkup | rfl
    · obtain ⟨cs, hcs⟩ := List.head?_eq_some_iff.mp hmarkup
      rw [hcs]
      rfl
    · exact head?_dropBlank_of_tokensFrom? htokens hroot

end Xml

/-- A byte order mark is not blank. -/
theorem Text.head?_trimStart_of_mark {s : String} (hmark : s.toList.head? = some '\uFEFF') :
    (Text.trimStart s).toList.head? = some '\uFEFF' := by
  obtain ⟨cs, hcs⟩ := List.head?_eq_some_iff.mp hmark
  rw [Text.trimStart, String.toList_ofList, hcs]
  rfl

namespace Dialect

/-- The namespaces of the dialects tell them apart. -/
theorem ofNamespace?_of_mem (dialect : Dialect) :
    ∀ uri ∈ dialect.namespaces, ofNamespace? uri = some dialect := by
  cases dialect <;> decide

theorem mem_namespaces_of_rootNamespace {location expected uri : String}
    {namespaces : List String} {root : Xml.Node}
    (hroot : Markup.rootNamespace location expected namespaces root = .ok uri) :
    root.name.uri = some uri ∧ uri ∈ namespaces := by
  rw [Markup.rootNamespace] at hroot
  split at hroot
  · rename_i found hfound
    split at hroot
    · rename_i haccepted
      cases hroot
      exact ⟨hfound, haccepted.2⟩
    · cases hroot
  · cases hroot

/-- What a markup reader accepts is a document whose root is in a namespace of the dialect. -/
theorem exists_root_of_readText {dialect : Dialect} (hdialect : dialect ≠ .yaml)
    {location text : String} {result : List ObjectDefinition}
    (hread : (dialect.readText location text).answer = .ok result) :
    ∃ root uri, Markup.parseRoot location text = .ok root ∧ root.name.uri = some uri ∧
      uri ∈ dialect.namespaces := by
  cases dialect with
  | yaml => exact absurd rfl hdialect
  | legacy | objects | springBeans =>
    obtain ⟨root, hroot, hread⟩ := Traced.exists_of_bind hread
    obtain ⟨uri, huri, -⟩ := Traced.exists_of_bind hread
    exact ⟨root, uri, hroot, mem_namespaces_of_rootNamespace huri⟩

end Dialect

theorem Markup.parse?_of_parseRoot {location text : String} {root : Xml.Node}
    (hroot : Markup.parseRoot location text = .ok root) : Xml.parse? text = some root := by
  rw [Markup.parseRoot] at hroot
  split at hroot
  · rename_i hparse
    exact hparse.trans (congrArg some (Except.ok.inj hroot))
  · cases hroot

theorem Markup.rootDialect_of_mem {location uri : String} {root : Xml.Node} {dialect : Dialect}
    (huri : root.name.uri = some uri) (hmem : uri ∈ dialect.namespaces) :
    Markup.rootDialect location root = .ok dialect := by
  simp [Markup.rootDialect, huri, dialect.ofNamespace?_of_mem uri hmem]

namespace Source

variable {files : Files} {source : Source} {text : String}

/-- Behind its white space a text is markup or structured text. -/
theorem dialect_of_load (hextension : source.hasStructuredExtension = false)
    (hload : source.load files = .ok text) :
    source.dialect files =
      if (Text.trimStart text).toList.head? = some '<' then do
        let root ← Markup.parseRoot source.location text
        Markup.rootDialect source.location root
      else .ok .yaml := by
  rw [dialect, hextension, hload]
  rfl

/-- Detection tells the dialect of the markup reader that accepts a source, unless the text
begins with a byte order mark; then it takes the source for structured text. -/
theorem dialect_of_read (files : Files) (source : Source) (dialect : Dialect)
    (result : List ObjectDefinition) (hextension : source.hasStructuredExtension = false)
    (hdialect : dialect ≠ .yaml) (hread : (dialect.read files source).answer = .ok result) :
    ∃ text, source.load files = .ok text ∧
      source.dialect files =
        .ok (if text.toList.head? = some '\uFEFF' then .yaml else dialect) := by
  obtain ⟨_, -, hread⟩ := Traced.exists_of_bind hread
  obtain ⟨text, hload, hread⟩ := Traced.exists_of_bind hread
  obtain ⟨root, uri, hroot, huri, hmem⟩ := Dialect.exists_root_of_readText hdialect hread
  refine ⟨text, hload, ?_⟩
  rw [dialect_of_load hextension hload]
  by_cases hmark : text.toList.head? = some '\uFEFF'
  · have hblank := Text.head?_trimStart_of_mark hmark
    rw [if_pos hmark, hblank]
    rfl
  · have hmarkup := (Xml.head?_of_parse? (Markup.parse?_of_parseRoot hroot)).resolve_left hmark
    rw [if_neg hmark, if_pos hmarkup, hroot]
    exact Markup.rootDialect_of_mem huri hmem

/-- Bean markup behind a declaration, a comment and white space. -/
def prefaced : Source :=
  .inline "beans.xml" <|
    "<?xml version='1.0'?>\n<!-- beans -->\n" ++
    "<beans xmlns='http://www.springframework.org/schema/beans'/>"

theorem dialect_of_read_prefaced :
    prefaced.hasStructuredExtension = false ∧ Dialect.springBeans ≠ .yaml ∧
      ∃ result, (Dialect.springBeans.read (fun _ => .error .notFound) prefaced).answer =
          .ok result ∧
        ∃ text, prefaced.load (fun _ => .error .notFound) = .ok text ∧
          prefaced.dialect (fun _ => .error .notFound) =
            .ok (if text.toList.head? = some '\uFEFF' then .yaml else .springBeans) := by
  have hok : (Dialect.springBeans.read (fun _ => .error .notFound) prefaced).answer.isOk := by
    decide
  obtain ⟨result, hread⟩ := Traced.exists_of_isOk hok
  exact ⟨rfl, by decide, result, hread,
    dialect_of_read _ prefaced .springBeans result rfl (by decide) hread⟩

/-- Object markup behind a byte order mark. -/
def marked : Source :=
  .inline "app.xml"
    "\uFEFF<objects xmlns='http://www.springframework.org/springpython/schema/objects'/>"

/-- The reader of object markup accepts the text, but it is told to be structured text. -/
theorem dialect_marked_ne :
    marked.hasStructuredExtension = false ∧
      (∃ result,
        (Dialect.objects.read (fun _ => .error .notFound) marked).answer = .ok result) ∧
      marked.dialect (fun _ => .error .notFound) = .ok .yaml ∧
      marked.dialect (fun _ => .error .notFound) ≠ .ok .objects := by
  have hok : (Dialect.objects.read (fun _ => .error .notFound) marked).answer.isOk := by
    decide
  have htold : marked.dialect (fun _ => .error .notFound) = .ok .yaml := by
    rw [dialect_of_load rfl rfl]
    exact if_neg (by decide)
  exact ⟨rfl, Traced.exists_of_isOk hok, htold, by simp [htold]⟩

end Source

end Wiring
