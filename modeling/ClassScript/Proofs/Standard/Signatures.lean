import ClassScript.Proofs.Libraries
import ClassScript.Standard

/-!
Library functions keep their signatures.

Called with arguments of the types that it declares, with a value of the class's type in front of them
for an instance method, no function of a standard library fails because of its arguments, and one that
succeeds leaves a result of the type that it declares.

`Keeps` says so of a body and of its parts, which read arguments, compute, set the result and write;
every part has a rule.
-/

namespace ClassScript

/-- A failure that says that an argument is missing or has a type that was not expected. -/
def NativeError.blamesArguments : NativeError → Bool
  | .argumentType .. | .missingArgument _ => true
  | _ => false

theorem Value.eq_void_iff (v : Value) : v = .void ↔ v.type = .void := by
  cases v <;> simp [Value.type]

namespace Native

variable {α β : Type} {types : List ValueType} {before between after : ValueType}

/-- On arguments of these types, with a result of the type `before` so far, `p` does not fail because
of the arguments, and if it succeeds, it leaves the arguments as they are and a result of the type
`after`. -/
def Keeps (types : List ValueType) (before after : ValueType) (p : Native α) : Prop :=
  ∀ c : CallContext, c.args.toList.map (·.type) = types → c.result.type = before →
    match (ExceptT.run p).run c with
    | (.ok _, d) => d.args = c.args ∧ d.result.type = after
    | (.error e, _) => e.blamesArguments = false

theorem run_get_bind (f : CallContext → Native β) (c : CallContext) :
    (ExceptT.run (get >>= f)).run c = (ExceptT.run (f c)).run c := rfl

namespace Keeps

theorem pure (a : α) : Keeps types before before (Pure.pure a) := fun _ _ h => ⟨rfl, h⟩

theorem throw {e : NativeError} (h : e.blamesArguments = false) :
    Keeps types before after (MonadExcept.throw e : Native α) := fun _ _ _ => h

theorem failWith {e : NativeError} (h : e.blamesArguments = false) :
    Keeps types before after (Native.failWith e : Native α) := throw h

theorem bind {p : Native α} {f : α → Native β} (hp : Keeps types before between p)
    (hf : ∀ a, Keeps types between after (f a)) : Keeps types before after (p >>= f) := by
  intro c hargs hresult
  have hfirst := hp c hargs hresult
  rw [ExceptT.run_bind, StateT.run_bind]
  split at hfirst
  · next a d hrun =>
    have hrest := hf a d (hfirst.1 ▸ hargs) hfirst.2
    rw [hrun]
    change match (ExceptT.run (f a)).run d with
      | (.ok _, d) => d.args = c.args ∧ d.result.type = after
      | (.error e, _) => e.blamesArguments = false
    rw [← hfirst.1]
    exact hrest
  · next e d hrun =>
    rw [hrun]
    exact hfirst

/-- A computation whose failures are not about arguments. -/
theorem lift {x : Except NativeError α} (h : ∀ e, x = .error e → e.blamesArguments = false) :
    Keeps types before before (liftM x : Native α) := by
  intro c _ hresult
  cases x with
  | ok a => exact ⟨rfl, hresult⟩
  | error e => exact h e rfl

theorem get_bind {f : CallContext → Native β} (h : ∀ c, Keeps types before after (f c)) :
    Keeps types before after (MonadState.get >>= f) := fun c => h c c

/-- The number of arguments is the number of the declared types. -/
theorem count_bind {f : Nat → Native β} (h : Keeps types before after (f types.length)) :
    Keeps types before after (Native.count >>= f) := by
  intro c hargs hresult
  have hsize : c.args.size = types.length := by simp [← hargs]
  have := h c hargs hresult
  rw [← hsize] at this
  exact this

theorem mapM {f : α → Native β} {xs : List α} (h : ∀ x ∈ xs, Keeps types before before (f x)) :
    Keeps types before before (xs.mapM f) := by
  induction xs with
  | nil => exact pure _
  | cons x xs ih =>
    rw [List.mapM_cons]
    rw [List.forall_mem_cons] at h
    exact bind h.1 fun _ => bind (ih h.2) fun _ => pure _

/-! ### Arguments -/

theorem any_bind {i : Nat} {t : ValueType} {f : Value → Native β} (hi : types[i]? = some t)
    (hf : ∀ v, v.type = t → Keeps types before after (f v)) :
    Keeps types before after (Native.any i >>= f) := by
  intro c hargs hresult
  obtain ⟨v, hv, hvt⟩ : ∃ v, c.args[i]? = some v ∧ v.type = t := by
    rw [← hargs, List.getElem?_map, Array.getElem?_toList] at hi
    simpa using hi
  have hrun : (ExceptT.run (Native.any i)).run c = (.ok v, c) := by
    rw [Native.any, run_get_bind, hv]
    rfl
  rw [ExceptT.run_bind, StateT.run_bind, hrun]
  exact hf v hvt c hargs hresult

theorem any {i : Nat} (h : i < types.length) : Keeps types before before (Native.any i) := by
  rw [← bind_pure (Native.any i)]
  exact any_bind (List.getElem?_eq_getElem h) fun v _ => pure v

theorem int {i : Nat} (h : types[i]? = some .int) : Keeps types before before (Native.int i) :=
  any_bind h fun v hv => by cases v <;> first | exact pure _ | cases hv

theorem long {i : Nat} (h : types[i]? = some .long) : Keeps types before before (Native.long i) :=
  any_bind h fun v hv => by cases v <;> first | exact pure _ | cases hv

theorem double {i : Nat} (h : types[i]? = some .double) : Keeps types before before (Native.double i) :=
  any_bind h fun v hv => by cases v <;> first | exact pure _ | cases hv

theorem bool {i : Nat} (h : types[i]? = some .bool) : Keeps types before before (Native.bool i) :=
  any_bind h fun v hv => by cases v <;> first | exact pure _ | cases hv

theorem string {i : Nat} (h : types[i]? = some .string) : Keeps types before before (Native.string i) :=
  any_bind h fun v hv => by cases v <;> first | exact pure _ | cases hv

theorem chars {i : Nat} (h : types[i]? = some .string) : Keeps types before before (Native.chars i) :=
  bind (string h) fun _ => pure _

/-! ### Results and output -/

theorem give (v : Value) : Keeps types before v.type (Native.give v) := fun _ _ _ => ⟨rfl, rfl⟩

theorem giveChars (cs : List Char) : Keeps types before .string (Native.giveChars cs) := give _

theorem write (text : String) : Keeps types before before (Native.write text) := by
  refine get_bind fun c => ?_
  split
  · exact fun _ _ hresult => ⟨rfl, hresult⟩
  · exact throw rfl

/-- What a call of a body that keeps its types comes to. -/
theorem run {body : Native Unit} (h : Keeps types .void after body) {args : Array Value}
    (hargs : args.toList.map (·.type) = types) (sink : Sink) :
    match (body.run args sink).1 with
    | .ok v => v.type = after
    | .error e => e.blamesArguments = false := by
  have hbody := h ⟨args, .void, sink⟩ hargs rfl
  unfold Native.run
  split at hbody
  · next d hrun =>
    rw [hrun]
    exact hbody.2
  · next e d hrun =>
    rw [hrun]
    exact hbody

end Keeps
end Native

/-! ## Functions as they are described -/

/-- The types of the arguments that a call of a function of a class for `keyword` passes: an instance
method takes a value of the class's type in front of what it declares. -/
def argumentTypes (keyword : Option ValueType) (isInstance : Bool) (params : List ValueType) :
    List ValueType :=
  (if isInstance then keyword.toList else []) ++ params

/-- A function of a class for `keyword` keeps its signature. -/
def FunctionSpec.Keeps (keyword : Option ValueType) (f : FunctionSpec) : Prop :=
  Native.Keeps (argumentTypes keyword f.isInstance f.params) .void f.returns f.body

namespace Standard

open Native

variable {keyword : Option ValueType} {types : List ValueType}

/-! ### Computations that fail -/

/-- A computation whose failures are not about arguments. -/
def Blameless {α : Type} (x : Except NativeError α) : Prop :=
  ∀ e, x = .error e → e.blamesArguments = false

theorem Blameless.ok {α : Type} (a : α) : Blameless (.ok a) := by
  rintro e ⟨⟩

theorem Blameless.error {α : Type} {e : NativeError} (h : e.blamesArguments = false) :
    Blameless (.error e : Except NativeError α) := by
  rintro e ⟨⟩
  exact h

theorem blameless_parseInteger (bits : Nat) (text : String) : Blameless (parseInteger bits text) := by
  unfold parseInteger
  split
  · exact .ok _
  · exact .error rfl
  · exact .error rfl

theorem blameless_parseDouble (text : String) : Blameless (parseDouble text) := by
  unfold parseDouble
  extract_lets
  repeat' split
  all_goals first | exact .ok _ | exact .error rfl

theorem blameless_parseBool (text : String) : Blameless (parseBool text) := by
  unfold parseBool
  extract_lets
  repeat' split
  all_goals first | exact .ok _ | exact .error rfl

theorem blameless_roundToBits (bits : Nat) (d : Double) : Blameless (roundToBits bits d) := by
  unfold roundToBits
  repeat' split
  all_goals first | exact .ok _ | exact .error rfl

theorem blameless_pattern (engine : PatternEngine) (text : String) :
    Blameless (engine.pattern text) := by
  unfold PatternEngine.pattern
  split
  · exact .ok _
  · exact .error rfl

theorem blameless_indexOf (text needle : List Char) : Blameless (indexOf text needle) := by
  unfold indexOf
  repeat' split
  all_goals first | exact .ok _ | exact .error rfl

theorem blameless_substringFrom (text : List Char) (start : Int) :
    Blameless (substringFrom text start) := by
  unfold substringFrom
  split
  · exact .ok _
  · exact .error rfl

theorem blameless_substring (text : List Char) (start count : Int) :
    Blameless (substring text start count) := by
  unfold substring
  repeat' split
  all_goals first | exact .ok _ | exact .error rfl

theorem blameless_replaced (text old new : List Char) : Blameless (replaced text old new) := by
  unfold replaced
  split
  · exact .error rfl
  · exact .ok _

/-! ### Families of functions -/

theorem keeps_ofDouble (name : String) (f : Double → Double) : (ofDouble name f).Keeps keyword :=
  .bind (.double rfl) fun _ => .give _

theorem keeps_ofInts (name : String) (f : Int32 → Int32 → Int32) : (ofInts name f).Keeps keyword :=
  .bind (.int rfl) fun _ => .bind (.int rfl) fun _ => .give _

theorem keeps_ofLongs (name : String) (f : Int64 → Int64 → Int64) : (ofLongs name f).Keeps keyword :=
  .bind (.long rfl) fun _ => .bind (.long rfl) fun _ => .give _

theorem keeps_ofDoubles (name : String) (f : Double → Double → Double) :
    (ofDoubles name f).Keeps keyword :=
  .bind (.double rfl) fun _ => .bind (.double rfl) fun _ => .give _

theorem keeps_ofText (name : String) (f : List Char → List Char) : (ofText name f).Keeps keyword :=
  .bind (.chars rfl) fun _ => .giveChars _

theorem keeps_mapped (name : String) (f : List Char → List Char) :
    (mapped name f).Keeps (some .string) :=
  .bind (.chars rfl) fun _ => .giveChars _

theorem keeps_tested (name : String) (p : List Char → List Char → Bool) :
    (tested name p).Keeps (some .string) :=
  .bind (.chars rfl) fun _ => .bind (.chars rfl) fun _ => .give _

/-- Reading a value out of a text. -/
theorem keeps_reader {α : Type} {read : String → Except NativeError α} {make : α → Value}
    {t : ValueType} (hread : ∀ text, Blameless (read text)) (hmake : ∀ a, (make a).type = t) :
    Native.Keeps [.string] .void t (do Native.give (make (← read (← Native.string 0)))) :=
  .bind (.string rfl) fun text => .bind (.lift (hread text)) fun a => hmake a ▸ .give (make a)

theorem keeps_readInt : Native.Keeps [.string] .void .int readInt :=
  keeps_reader (blameless_parseInteger 32) fun _ => rfl

theorem keeps_readLong : Native.Keeps [.string] .void .long readLong :=
  keeps_reader (blameless_parseInteger 64) fun _ => rfl

theorem keeps_readDouble : Native.Keeps [.string] .void .double readDouble :=
  keeps_reader blameless_parseDouble fun _ => rfl

theorem keeps_readBool : Native.Keeps [.string] .void .bool readBool :=
  keeps_reader blameless_parseBool fun _ => rfl

theorem keeps_showValue (t : ValueType) : Native.Keeps [t] .void .string showValue :=
  .bind (.any Nat.zero_lt_one) fun _ => .give _

/-- All arguments are texts, however many there are. -/
theorem keeps_concat (n : Nat) : Native.Keeps (List.replicate n .string) .void .string concat := by
  refine .count_bind (.bind (.mapM fun i hi => .string ?_) fun _ => .give _)
  rw [List.mem_range, List.length_replicate] at hi
  exact List.getElem?_replicate_of_lt hi

theorem keeps_combineAll (n : Nat) :
    Native.Keeps (List.replicate n .string) .void .string combineAll := by
  refine .count_bind (.bind (.mapM fun i hi => .chars ?_) fun _ => .giveChars _)
  rw [List.mem_range, List.length_replicate] at hi
  exact List.getElem?_replicate_of_lt hi

/-! ### Classes -/

theorem keeps_console : ∀ f ∈ consoleClass.functions, f.Keeps consoleClass.keyword := by
  refine List.forall_mem_cons.mpr ⟨.write _, fun f hf => ?_⟩
  obtain ⟨t, -, hf⟩ := List.mem_flatMap.mp hf
  simp only [List.mem_cons, List.not_mem_nil, or_false] at hf
  obtain rfl | rfl := hf
  · exact .bind (.any Nat.zero_lt_one) fun _ => .write _
  · exact .bind (.any Nat.zero_lt_one) fun _ => .write _

theorem keeps_absInt : Native.Keeps [.int] .void .int absInt := by
  refine .bind (.int rfl) fun x => ?_
  split
  · exact .failWith rfl
  · exact .give _

theorem keeps_absLong : Native.Keeps [.long] .void .long absLong := by
  refine .bind (.long rfl) fun x => ?_
  split
  · exact .failWith rfl
  · exact .give _

theorem keeps_math : ∀ f ∈ mathClass.functions, f.Keeps mathClass.keyword := by
  simp only [mathClass, List.forall_mem_cons]
  exact ⟨keeps_absInt, keeps_absLong, keeps_ofDouble _ _, keeps_ofInts _ _, keeps_ofLongs _ _,
    keeps_ofDoubles _ _, keeps_ofInts _ _, keeps_ofLongs _ _, keeps_ofDoubles _ _,
    keeps_ofDouble _ _, keeps_ofDouble _ _, keeps_ofDouble _ _, keeps_ofDouble _ _,
    keeps_ofDoubles _ _, List.forall_mem_nil _⟩

theorem keeps_substring : Native.Keeps [.string, .int, .int] .void .string (do
    let s ← Native.chars 0
    let start ← Native.int 1
    if start < 0 then Native.failWith (outsideString "startIndex")
    let count ← Native.int 2
    Native.giveChars (← substring s start.toInt count.toInt)) := by
  refine .bind (.chars rfl) fun s => .bind (.int rfl) fun start => ?_
  have hrest : Native.Keeps [.string, .int, .int] .void .string (do
      let count ← Native.int 2
      Native.giveChars (← substring s start.toInt count.toInt)) :=
    .bind (.int rfl) fun _ => .bind (.lift (blameless_substring _ _ _)) fun _ => .giveChars _
  split
  · exact .bind (.failWith rfl) fun _ => hrest
  · exact hrest

theorem keeps_string : ∀ f ∈ stringClass.functions, f.Keeps stringClass.keyword := by
  simp only [stringClass, List.forall_mem_cons]
  refine ⟨?_, ?_, keeps_concat 2, keeps_concat 3, keeps_concat 4, keeps_mapped _ _, keeps_mapped _ _,
    keeps_mapped _ _, keeps_tested _ _, keeps_tested _ _, keeps_tested _ _, ?_, ?_, ?_, ?_,
    List.forall_mem_nil _⟩
  · exact .bind (.string rfl) fun _ => .give _
  · exact .bind (.chars rfl) fun _ => .give _
  · exact .bind (.chars rfl) fun _ => .bind (.chars rfl) fun _ => .bind (.lift (blameless_indexOf _ _))
      fun _ => .give _
  · exact .bind (.chars rfl) fun _ => .bind (.int rfl) fun _ => .bind
      (.lift (blameless_substringFrom _ _)) fun _ => .giveChars _
  · exact keeps_substring
  · exact .bind (.chars rfl) fun _ => .bind (.chars rfl) fun _ => .bind (.chars rfl) fun _ =>
      .bind (.lift (blameless_replaced _ _ _)) fun _ => .giveChars _

theorem keeps_convert : ∀ f ∈ convertClass.functions, f.Keeps convertClass.keyword := by
  simp only [convertClass, List.forall_mem_cons]
  refine ⟨keeps_readInt, ?_, ?_, ?_, keeps_readLong, ?_, ?_, keeps_readDouble, ?_, ?_, keeps_readBool,
    keeps_showValue .int, keeps_showValue .long, keeps_showValue .double, keeps_showValue .bool,
    List.forall_mem_nil _⟩
  · refine .bind (.long rfl) fun n => ?_
    split
    · exact .give _
    · exact .failWith rfl
  · exact .bind (.double rfl) fun _ => .bind (.lift (blameless_roundToBits _ _)) fun _ => .give _
  · exact .bind (.bool rfl) fun _ => .give _
  · exact .bind (.int rfl) fun _ => .give _
  · exact .bind (.double rfl) fun _ => .bind (.lift (blameless_roundToBits _ _)) fun _ => .give _
  · exact .bind (.int rfl) fun _ => .give _
  · exact .bind (.long rfl) fun _ => .give _

theorem keeps_path : ∀ f ∈ pathClass.functions, f.Keeps pathClass.keyword := by
  simp only [pathClass, List.forall_mem_cons]
  exact ⟨keeps_combineAll 2, keeps_combineAll 3, keeps_ofText _ _, keeps_ofText _ _, keeps_ofText _ _,
    keeps_ofText _ _, .bind (.chars rfl) fun _ => .give _, List.forall_mem_nil _⟩

theorem keeps_regex (engine : PatternEngine) :
    ∀ f ∈ (regexClass engine).functions, f.Keeps (regexClass engine).keyword := by
  simp only [regexClass, List.forall_mem_cons]
  refine ⟨?_, ?_, ?_, ?_, List.forall_mem_nil _⟩
  · exact .bind (.string rfl) fun _ => .bind (.lift (blameless_pattern engine _)) fun _ =>
      .bind (.string rfl) fun _ => .give _
  · exact .bind (.string rfl) fun _ => .bind (.lift (blameless_pattern engine _)) fun _ =>
      .bind (.string rfl) fun _ => .bind (.string rfl) fun _ => .give _
  · exact .bind (.string rfl) fun _ => .bind (.lift (blameless_pattern engine _)) fun _ =>
      .bind (.string rfl) fun _ => .give _
  · exact .bind (.string rfl) fun _ => .give _

theorem keeps_int : ∀ f ∈ intClass.functions, f.Keeps intClass.keyword := by
  simp only [intClass, List.forall_mem_cons]
  exact ⟨keeps_readInt, List.forall_mem_nil _⟩

theorem keeps_long : ∀ f ∈ longClass.functions, f.Keeps longClass.keyword := by
  simp only [longClass, List.forall_mem_cons]
  exact ⟨keeps_readLong, List.forall_mem_nil _⟩

theorem keeps_double : ∀ f ∈ doubleClass.functions, f.Keeps doubleClass.keyword := by
  simp only [doubleClass, List.forall_mem_cons]
  exact ⟨keeps_readDouble, .bind (.double rfl) fun _ => .give _, .bind (.double rfl) fun _ => .give _,
    List.forall_mem_nil _⟩

theorem keeps_bool : ∀ f ∈ boolClass.functions, f.Keeps boolClass.keyword := by
  simp only [boolClass, List.forall_mem_cons]
  exact ⟨keeps_readBool, List.forall_mem_nil _⟩

theorem keeps_web : ∀ f ∈ webClass.functions, f.Keeps webClass.keyword := by
  simp only [webClass, List.forall_mem_cons]
  exact ⟨keeps_ofText _ _, keeps_ofText _ _, keeps_ofText _ _, keeps_ofText _ _, List.forall_mem_nil _⟩

theorem keeps_enumerable : ∀ f ∈ enumerableClass.functions, f.Keeps enumerableClass.keyword := by
  simp only [enumerableClass, List.forall_mem_cons]
  refine ⟨?_, ?_, keeps_ofText _ _, keeps_ofText _ _, List.forall_mem_nil _⟩
  · refine .bind (.string rfl) fun s => ?_
    split
    · exact .give _
    · exact .failWith rfl
  · exact .bind (.string rfl) fun _ => .give _

/-! ### Libraries -/

theorem regexClass_fullName (engine : PatternEngine) :
    (regexClass engine).fullName = "System.Text.RegularExpressions.Regex" := by
  have hname : (if "System.Text.RegularExpressions".isEmpty then "Regex"
      else ((QualifiedName.ofText "System.Text.RegularExpressions").child "Regex").text) =
        "System.Text.RegularExpressions.Regex" := by decide +kernel
  exact hname

theorem runtimeLibrary_classes (engine : PatternEngine) : (runtimeLibrary engine).classes =
    [consoleClass, mathClass, stringClass, convertClass, intClass, longClass, doubleClass, boolClass,
      pathClass, regexClass engine].map (·.asClass) := by
  have hnames : ([consoleClass, mathClass, stringClass, convertClass, intClass, longClass, doubleClass,
      boolClass, pathClass, regexClass engine].map (·.fullName)).Nodup := by
    simp only [List.map_cons, regexClass_fullName, List.map_nil]
    decide +kernel
  rw [runtimeLibrary, Library.addNamespace_classes, Library.addNamespace_classes,
    Library.build_classes_of_nodup _ _ hnames]

theorem netLibrary_classes : netLibrary.classes = [webClass.asClass] := by
  rw [netLibrary, Library.build_classes_of_nodup _ _ (by simp), List.map_singleton]

theorem sequenceLibrary_classes : sequenceLibrary.classes = [enumerableClass.asClass] := by
  rw [sequenceLibrary, Library.build_classes_of_nodup _ _ (by simp),
    List.map_singleton]

/-- Every function of a class of a standard library was described, in a description of that class. -/
theorem exists_spec {engine : PatternEngine} {l : Library} (hl : l ∈ (catalog engine).libraries)
    {c : NativeClass} (hc : c ∈ l.classes) {f : NativeFunction} (hf : f ∈ c.functions) :
    ∃ s : FunctionSpec, f = s.build c.name ∧ s.Keeps c.keyword := by
  have hclass {k : ClassSpec} (hk : ∀ s ∈ k.functions, s.Keeps k.keyword) (hc : c = k.asClass) :
      ∃ s : FunctionSpec, f = s.build c.name ∧ s.Keeps c.keyword := by
    subst hc
    obtain ⟨s, hs, rfl⟩ := List.mem_map.mp hf
    exact ⟨s, rfl, hk s hs⟩
  simp only [catalog, List.mem_cons, List.not_mem_nil, or_false] at hl
  obtain rfl | rfl | rfl := hl
  · simp only [runtimeLibrary_classes, List.map_cons, List.map_nil, List.mem_cons, List.not_mem_nil,
      or_false] at hc
    obtain h | h | h | h | h | h | h | h | h | h := hc
    · exact hclass keeps_console h
    · exact hclass keeps_math h
    · exact hclass keeps_string h
    · exact hclass keeps_convert h
    · exact hclass keeps_int h
    · exact hclass keeps_long h
    · exact hclass keeps_double h
    · exact hclass keeps_bool h
    · exact hclass keeps_path h
    · exact hclass (keeps_regex engine) h
  · rw [netLibrary_classes, List.mem_singleton] at hc
    exact hclass keeps_web hc
  · rw [sequenceLibrary_classes, List.mem_singleton] at hc
    exact hclass keeps_enumerable hc

/-- Whatever engine finds patterns, called on arguments of the types that it takes a function of a
standard library does not fail because of them, and if it succeeds, it has set a result of the type that
it declares: none exactly if that type is void. -/
theorem signature_kept {engine : PatternEngine} {l : Library} (hl : l ∈ (catalog engine).libraries)
    {c : NativeClass} (hc : c ∈ l.classes) {f : NativeFunction} (hf : f ∈ c.functions)
    {args : List Value} (hargs : args.map (·.type) = argumentTypes c.keyword f.isInstance f.params)
    (sink : Sink) :
    match (f.body.run args.toArray sink).1 with
    | .ok v => v.type = f.returns ∧ (v = .void ↔ f.returns = .void)
    | .error e =>
      (∀ i expected found, e ≠ .argumentType i expected found) ∧ ∀ i, e ≠ .missingArgument i := by
  obtain ⟨s, rfl, hs⟩ := exists_spec hl hc hf
  have hrun := Native.Keeps.run hs hargs sink
  change match ((s.build c.name).body.run args.toArray sink).1 with
    | .ok v => v.type = (s.build c.name).returns
    | .error e => e.blamesArguments = false at hrun
  cases hr : ((s.build c.name).body.run args.toArray sink).1 with
  | ok v =>
    rw [hr] at hrun
    exact ⟨hrun, by rw [Value.eq_void_iff, hrun]⟩
  | error e =>
    rw [hr] at hrun
    constructor
    · rintro i expected found rfl
      cases hrun
    · rintro i rfl
      cases hrun

/-- What an engine says about a group that is never closed: the text again, and a mark below. -/
def unclosedGroup (text : String) : String :=
  let before := text.toList.takeWhile (· ≠ '(')
  "regex parse error:\n    " ++ text ++ "\n    " ++ String.ofList (before.map fun _ => ' ') ++
    "^\nerror: unclosed group"

/-- An engine that knows only patterns that match themselves, and no end of a group. -/
def literalEngine : PatternEngine where
  Pattern := List Char
  compile text :=
    if text.toList.contains '(' then .error (unclosedGroup text) else .ok text.toList
  isMatch p text := (Text.find? p text.toList).isSome
  find? p text := if (Text.find? p text.toList).isSome then some (.ofList p) else none
  replaceAll p text replacement := .ofList (Text.replaceAll p replacement.toList text.toList)
  escape text := text

def firstMatch : NativeFunction :=
  (FunctionSpec.static "Match" [.string, .string] .string (do
    let p ← literalEngine.pattern (← Native.string 1)
    let text ← Native.string 0
    Native.give (.string ((literalEngine.find? p text).getD "")))).build
      (regexClass literalEngine).fullName

/-- A pattern that is found, and a text that is none. -/
theorem signature_kept_match :
    (catalog literalEngine).libraries.head? = some (runtimeLibrary literalEngine) ∧
    (regexClass literalEngine).asClass ∈ (runtimeLibrary literalEngine).classes ∧
    firstMatch ∈ (regexClass literalEngine).asClass.functions ∧
    (∃ v, (firstMatch.body.run #[.string "id=42;", .string "42"] .empty).1 = .ok v ∧
      v = .string "42" ∧ v.type = firstMatch.returns) ∧
    ∃ e, (firstMatch.body.run #[.string "id=42;", .string "4("] .empty).1 = .error e ∧
      e.message = "invalid pattern '4(': regex parse error:\n    4(\n     ^\nerror: unclosed group" ∧
      ∀ i, e ≠ .missingArgument i := by
  have hlibrary : runtimeLibrary literalEngine ∈ (catalog literalEngine).libraries := List.mem_cons_self
  have hclass : (regexClass literalEngine).asClass ∈ (runtimeLibrary literalEngine).classes := by
    rw [runtimeLibrary_classes]
    simp
  have hfunction : firstMatch ∈ (regexClass literalEngine).asClass.functions :=
    List.mem_map_of_mem (by simp [regexClass])
  have hargs (pattern : String) : [Value.string "id=42;", .string pattern].map (·.type) =
      argumentTypes (regexClass literalEngine).asClass.keyword firstMatch.isInstance firstMatch.params :=
    rfl
  obtain ⟨hfound, -⟩ := signature_kept hlibrary hclass hfunction (hargs "42") .empty
  obtain ⟨-, hrefused⟩ := signature_kept hlibrary hclass hfunction (hargs "4(") .empty
  exact ⟨rfl, hclass, hfunction, ⟨_, rfl, by decide, hfound⟩, _, rfl, by decide, hrefused⟩

end Standard
end ClassScript
