import BlockForge.Proofs.Lowering.EntryPoint
import BlockForge.Proofs.Machine.Kinds
import BlockForge.Proofs.Machine.Nesting

/-!
# Symbols and the exit code

The functions of a module have the symbols of their definitions, but for the entry point, which makes room
for the wrapper. So the names are different as long as no other definition has the name that was made for
the entry point or the name of the wrapper. Then `main` is the wrapper, and its exit code is the result of
the entry point wrapped to 32 bits.
-/

namespace BlockForge.Lowering

open Diagnostic (Diag Queue)
open Ir (FuncId Function Module)
open Machine (Frame Outcome Session Store Val)
open Source (FunctionDef Program)
open BlockForge.Types (Ty)

/-! ### Names -/

/-- No other definition has a name that the entry point needs: its own in the module, or the wrapper's. -/
def SymbolsFree (config : Config) (p : Program) : Prop :=
  ∀ e, entryDefinition? config p = some e → ∀ d ∈ p.functions,
    d.symbol ≠ Collection.entryMark ++ config.entryPoint ∧
      (d.symbol = wrapperName → config.entryPoint = wrapperName)

theorem entryMark_ne_wrapperName (s : String) : Collection.entryMark ++ s ≠ wrapperName := by
  intro h
  have hlen := congrArg String.length h
  rw [String.length_append] at hlen
  have h₁ : Collection.entryMark.length = 5 := by decide
  have h₂ : wrapperName.length = 4 := by decide
  omega

section

variable {config : Config} {allocator : Allocator} {p : Program}

/-- Without errors the name of a function in the module tells its definition. -/
theorem irName_inj (hfree : SymbolsFree config p) {d d' : FunctionDef} (hd : d ∈ p.functions)
    (hd' : d' ∈ p.functions) (h : Collection.irName config d = Collection.irName config d') :
    d.symbol = d'.symbol := by
  have hentry : ∀ {d : FunctionDef}, d ∈ p.functions →
      (d.receiver.isNone && d.symbol == config.entryPoint) = true → ∃ e, entryDefinition? config p = some e := by
    intro d hd he
    refine Option.isSome_iff_exists.1 ?_
    exact List.find?_isSome.2 ⟨d, hd, he⟩
  have hmarked : ∀ {d d' : FunctionDef}, d ∈ p.functions → d' ∈ p.functions →
      (d.receiver.isNone && d.symbol == config.entryPoint) = true →
      d'.symbol ≠ Collection.entryMark ++ d.symbol := by
    intro d d' hd hd' he
    obtain ⟨e, hfound⟩ := hentry hd he
    have hsymbol : d.symbol = config.entryPoint := by simpa using (Bool.and_eq_true_iff.1 he).2
    rw [hsymbol]
    exact (hfree e hfound d' hd').1
  unfold Collection.irName at h
  split at h
  · rename_i he
    split at h
    · rename_i he'
      have h₁ : d.symbol = config.entryPoint := by simpa using (Bool.and_eq_true_iff.1 he).2
      have h₂ : d'.symbol = config.entryPoint := by simpa using (Bool.and_eq_true_iff.1 he').2
      exact h₁.trans h₂.symm
    · exact absurd h.symm (hmarked hd hd' he)
  · split at h
    · rename_i he'
      exact absurd h (hmarked hd' hd he')
    · exact h

/-- Every function but the wrapper is that of a definition, and has its name. -/
theorem definition_of_function (ha : allocator.IsInline) {i : FuncId} {f : Function}
    (hf : (lowerFirst config allocator p p.functions.length).1.function? i = some f) : ∃ d sig,
      Declares p (Collection.ofProgram config p).tables sig.definition d sig ∧ sig.func = i ∧
      f.name = Collection.irName config d := by
  have hhead := (lowerFirst_ready config ha (Nat.le_refl _) (p := p)).heads i
  rw [hf, Option.map_some] at hhead
  obtain ⟨f₀, hf₀, hh⟩ := Option.map_eq_some_iff.1 hhead.symm
  obtain ⟨d, sig, hdecl, hfunc⟩ := ofProgram_declares hf₀
  have hdeclared := hdecl.declared.1
  rw [hfunc, hf₀] at hdeclared
  have hname := congrArg Prod.fst hh
  rw [Option.some.inj hdeclared] at hname
  exact ⟨d, sig, hdecl, hfunc, hname.symm⟩

/-- The functions of the definitions have different names. -/
theorem names_of_definitions (ha : allocator.IsInline) (hfree : SymbolsFree config p) {i j : FuncId}
    {f g : Function} (hf : (lowerFirst config allocator p p.functions.length).1.function? i = some f)
    (hg : (lowerFirst config allocator p p.functions.length).1.function? j = some g)
    (h : f.name = g.name) : i = j := by
  obtain ⟨d, sig, hd, hi, hn⟩ := definition_of_function ha hf
  obtain ⟨d', sig', hd', hj, hn'⟩ := definition_of_function ha hg
  have hsym := irName_inj hfree (List.mem_of_getElem? hd.1) (List.mem_of_getElem? hd'.1) (by rw [← hn, ← hn', h])
  have hsig := hd.2.1
  rw [hsym] at hsig
  rw [← hi, ← hj, Option.some.inj (hsig.symm.trans hd'.2.1)]

/-- Where there is an entry point, no definition has the name of the wrapper. -/
theorem irName_ne_wrapperName (hfree : SymbolsFree config p) {e : FunctionDef}
    (he : entryDefinition? config p = some e) {sig' : Signature}
    (hdecl : Declares p (Collection.ofProgram config p).tables sig'.definition e sig') {d : FunctionDef}
    {sig : Signature} (hd : Declares p (Collection.ofProgram config p).tables sig.definition d sig) :
    Collection.irName config d ≠ wrapperName := by
  intro hname
  unfold Collection.irName at hname
  split at hname
  · exact entryMark_ne_wrapperName _ hname
  · rename_i hne
    have hpoint := (hfree e he d (List.mem_of_getElem? hd.1)).2 hname
    obtain ⟨-, hreceiver, hsymbol⟩ := mem_of_entryDefinition? he
    have hsame : d.symbol = e.symbol := by rw [hname, hsymbol, hpoint]
    obtain rfl : sig = sig' := by
      have hsig := hd.2.1
      rw [hsame] at hsig
      exact Option.some.inj (hsig.symm.trans hdecl.2.1)
    obtain rfl : d = e := Option.some.inj (hd.1.symm.trans hdecl.1)
    simp [hreceiver, hsymbol] at hne

/-! ### The wrapper -/

/-- The wrapper is a well-typed function. -/
theorem emitWrapper_ok {m : Module} (hm : m.HostsKnown) {sig : Signature} {f : Function}
    (hf : m.function? sig.func = some f) (hp : f.params = [])
    (hret : f.ret = .void ∨ f.ret.isInt = true) (name : String) :
    (emitWrapper sig name).Sat (.start (m.declareFunction wrapperName [] .i32).2 ⟨m.functions.size⟩)
      fun _ b => b.Ok := by
  have hdecl : (m.declareFunction wrapperName [] .i32).2.function? ⟨m.functions.size⟩ =
      some (.declare wrapperName [] .i32) := Array.getElem?_push_size
  have hmodule : (m.declareFunction wrapperName [] .i32).2.HostsKnown := hm
  refine StateM.Sat.bind (Ir.Emit.start_entered hmodule hdecl) fun entry b₁ h₁ =>
    StateM.Sat.bind h₁ fun _ b₂ h₂ => ?_
  have hfun : b₂.function.ret = .i32 := by
    rw [h₂.later.grows.ret]
    simp [Ir.Builder.function, hdecl, Function.declare]
  obtain ⟨g, hg, -, hparams, hgret⟩ :=
    h₂.later.module.header (Collection.function?_declareFunction _ _ _ _ hf)
  have hargs : List.Forall₂ b₂.function.Has [] g.params := by
    rw [hparams, hp]
    exact .nil
  refine StateM.Sat.bind (Ir.Emit.call_onward h₂.live hg hargs ?_)
    fun result b₃ h₃ => ?_
  · rw [hgret]
    exact hret.imp_right Ir.Emit.isScalar_of_isInt
  · obtain ⟨on₃, hresult⟩ := h₃
    have hret₃ : b₃.function.ret = .i32 := on₃.ext.grows.ret.trans hfun
    have hend : ∀ {v b₄}, Ir.Emit.Onward b₃ b₄ ∧ b₄.function.Has v .i32 →
        (Ir.Emit.ret v).Sat b₄ fun _ b => b.Ok := by
      rintro v b₄ ⟨on₄, hv⟩
      refine (Ir.Emit.ret_halted on₄.live ?_).imp fun _ _ h => h.ok
      rw [on₄.ext.grows.ret, hret₃]
      exact hv
    have hzero : (Ir.Emit.constInt .i32 0 >>= Ir.Emit.ret).Sat b₃ fun _ b => b.Ok :=
      StateM.Sat.bind (Ir.Emit.constInt_onward on₃.live rfl 0) fun _ _ => hend
    rcases hresult with ⟨-, rfl⟩ | ⟨v, rfl, hv⟩
    · exact hzero
    · dsimp only
      split
      · exact hzero
      · refine StateM.Sat.bind (Ir.Emit.intResize_onward on₃.live hv ?_ rfl) fun _ _ => hend
        rw [hgret]
        refine hret.resolve_left fun hvoid => ?_
        have := hv.scalar
        rw [hgret, hvoid] at this
        cases this

theorem returnIrType_isInt {t : Ty} (h : t.isInteger = true) :
    (config.layout.returnIrType t).isInt = true := by
  have hint : ∀ bits, ((Ir.Ty.int? bits).getD .i64).isInt = true := by
    intro bits
    unfold Ir.Ty.int?
    split <;> rfl
  cases t with
  | signed w => exact hint _
  | unsigned w => exact hint _
  | _ => cases h

/-- The module of a program without errors is well-typed. -/
theorem lowerProgram_wellTyped
    (hbits : config.pointerBits = 16 ∨ config.pointerBits = 32 ∨ config.pointerBits = 64)
    (ha : allocator.IsInline) (hs : allocator.Sound)
    (herr : (lowerProgram config allocator p).hasErrors = false) :
    Machine.WellTyped (lowerProgram config allocator p).module := by
  have hprogress : Progress p (.ofProgram config p) p.functions.length
      (lowerFirst config allocator p p.functions.length) :=
    lowerFirst_progress hbits hs (Nat.le_refl _)
  have hok : ∀ {id f}, (lowerFirst config allocator p p.functions.length).1.function? id = some f →
      f.Ok (lowerFirst config allocator p p.functions.length).1 := by
    intro id f hf
    have hhead := (lowerFirst_ready config ha (Nat.le_refl _) (p := p)).heads id
    rw [hf, Option.map_some] at hhead
    obtain ⟨f₀, hf₀, -⟩ := Option.map_eq_some_iff.1 hhead.symm
    obtain ⟨d, sig, hdecl, rfl⟩ := ofProgram_declares hf₀
    obtain ⟨f', hf', -, hok, -⟩ := hprogress.done (List.getElem?_eq_some_iff.1 hdecl.1).1 hdecl
    obtain rfl : f' = f := Option.some.inj (hf'.symm.trans hf)
    exact hok
  rcases lowerProgram_cases ha herr with ⟨-, hm⟩ | ⟨d, sig, -, hdecl, hkind, hrec, hparams, hm⟩
  · rw [hm]
    exact ⟨hok, hprogress.hosts⟩
  · obtain ⟨f, hf, hhead⟩ := (hdecl.lowered ha).2
    simp only [Function.head, Prod.mk.injEq] at hhead
    have hvoid : f.ret = .void ↔ sig.ret.isUnit = true := by
      rw [hhead.2.2]
      exact returnIrType_eq_void sig.ret
    have hnil : f.params = [] := by rw [hhead.2.1, hrec, hparams]; rfl
    rw [hm]
    have hhosts := hprogress.hosts
    generalize (lowerFirst config allocator p p.functions.length).1 = m₀ at hf hok hhosts ⊢
    have hwrapper := emitWrapper_ok hhosts hf hnil (hkind.symm.imp hvoid.2 fun h => by
      rw [hhead.2.2]
      exact returnIrType_isInt h) d.symbol
    have hstart : Ir.Builder.start (m₀.declareFunction wrapperName [] .i32).2 ⟨m₀.functions.size⟩ =
        .last m₀ (.declare wrapperName [] .i32) none 0 := Ir.Emit.start_eq Array.getElem?_push_size
    rw [hstart] at hwrapper
    unfold StateM.Sat at hwrapper
    rw [emitWrapper_eq hf hnil hvoid, hhead.2.2] at hwrapper
    refine ⟨fun {id g} hg => ?_, hwrapper.hosts⟩
    have hgrows : m₀.Grows (Ir.Builder.last m₀ (wrapperCode sig d.symbol (config.layout.returnIrType sig.ret))
        none 0).module :=
      ⟨rfl, rfl, List.prefix_refl _, List.prefix_refl _, fun hj =>
        ⟨_, Ir.Builder.function?_last hj, rfl, rfl, rfl⟩⟩
    rw [Module.function?, Array.getElem?_push] at hg
    split at hg
    · cases hg
      have := hwrapper.function
      rw [Ir.Builder.function_last] at this
      exact this
    · exact (hok hg).growModule hgrows

end

/-! ### The exit code -/

/-- The number that an entry point of a width returns, zero for none. -/
def entryResult (signed : Bool) (bits : Nat) : Option Val → Int
  | some (.int w) => wrapInt signed bits w.toNat
  | _ => 0

/-- A result as the word that the wrapper returns. -/
def exitWord (signed : Bool) (bits : Nat) (w : UInt64) : UInt64 :=
  if bits = 32 then w
  else if 32 < bits then Word.mask w 32
  else if signed then Word.mask (Word.signExtend w bits).toUInt64 32 else w

/-- A signed reading depends on the class of a word only. -/
theorem toInt_signExtend_of_modEq {k : Nat} (hpos : 0 < k) (hk : k ≤ 64) {x : UInt64} {n : Int}
    (h : (x.toNat : Int) ≡ n [ZMOD (2 ^ k : Nat)]) : (Word.signExtend x k).toInt = wrapInt true k n := by
  rw [Word.toInt_signExtend hk hpos, ← wrapInt_congr h]
  exact (if_pos rfl).symm

theorem mask_modEq {k : Nat} (hk : k ≤ 64) {x : UInt64} {n : Int}
    (h : (x.toNat : Int) ≡ n [ZMOD (2 ^ k : Nat)]) :
    ((Word.mask x k).toNat : Int) ≡ n [ZMOD (2 ^ k : Nat)] := by
  rw [Word.toNat_mask hk, Int.natCast_mod]
  exact (Int.mod_modEq _ _).trans h

theorem toInt_exitWord {signed : Bool} {bits : Nat} (hpos : 0 < bits) (hbits : bits ≤ 64) {w : UInt64}
    (hw : w.toNat < 2 ^ bits) :
    (Word.signExtend (exitWord signed bits w) 32).toInt = wrapInt true 32 (wrapInt signed bits w.toNat) := by
  have hself : (w.toNat : Int) ≡ wrapInt signed bits w.toNat [ZMOD (2 ^ bits : Nat)] :=
    (wrapInt_modEq signed bits w.toNat).symm
  refine toInt_signExtend_of_modEq (by omega) (by omega) ?_
  unfold exitWord
  split
  · rename_i he
    rw [← he]
    exact hself
  · split
    · rename_i hlt
      refine mask_modEq (by omega) (hself.of_dvd ?_)
      exact_mod_cast pow_dvd_pow 2 (Nat.le_of_lt hlt)
    · cases signed with
      | true =>
        have hext : (Word.signExtend w bits).toInt = wrapInt true bits w.toNat :=
          toInt_signExtend_of_modEq hpos hbits (Int.ModEq.refl _)
        refine mask_modEq (by omega) ?_
        rw [← hext]
        exact Machine.toNat_toUInt64_modEq (by omega) _
      | false =>
        have hsmall : wrapInt false bits w.toNat = w.toNat := by
          unfold wrapInt
          rw [if_neg (by simp), Int.emod_eq_of_lt (by omega) (by exact_mod_cast hw)]
        rw [if_neg (by simp), hsmall]

theorem convert_exitCast {signed : Bool} {t : Ir.Ty} {bits : Nat} (ht : t.intBits? = some bits)
    (hne : bits ≠ 32) (w : UInt64) :
    Machine.convert (exitCast signed bits) t .i32 (.int w) = .ok (.int (exitWord signed bits w)) := by
  unfold exitCast exitWord
  rw [if_neg hne]
  by_cases hlt : bits < 32
  · have hle : ¬32 < bits := by omega
    cases signed with
    | true =>
      simp only [hlt, hle, if_true, if_false, Machine.convert, Machine.opBits_eq ht, Val.asSigned, Val.asInt]
      rfl
    | false =>
      simp only [hlt, hle, if_true, if_false, Bool.false_eq_true]
      rfl
  · have hgt : 32 < bits := by omega
    simp only [hlt, hgt, if_true, if_false]
    rfl

/-- A frame without callers returns. -/
theorem run_return {m : Module} {limit n : Nat} {M : Machine.State} {v : Ir.ValueId} {x : Val}
    (hi : M.frame.code.insts[M.frame.next]? = none) (ht : M.frame.code.terminator = some (.ret (some v)))
    (hx : M.frame.value? v = some x) (hc : M.callers = []) (hn : 0 < n) :
    (Machine.run m limit n M).result = .ok (some x) := by
  obtain ⟨n, rfl⟩ := Nat.exists_eq_succ_of_ne_zero (Nat.ne_of_gt hn)
  rw [Machine.run, Machine.step_ret hi ht hx, Machine.popReturn_last hc]

/-- A frame without callers returns what it converts last. -/
theorem run_cast_return {m : Module} {limit n : Nat} {M : Machine.State} {r v : Ir.ValueId} {x y : Val}
    {op : Ir.CastOp} {target : Ir.Ty}
    (hi : M.frame.code.insts[M.frame.next]? = some ⟨some r, .cast op v target⟩)
    (hend : M.frame.code.insts[M.frame.next + 1]? = none)
    (ht : M.frame.code.terminator = some (.ret (some r))) (hx : M.frame.value? v = some x)
    (hy : Machine.convert op (M.frame.func.valueType v) target x = .ok y)
    (hr : (M.put r y).frame.value? r = some y) (hc : M.callers = []) (hn : 1 < n) :
    (Machine.run m limit n M).result = .ok (some y) := by
  obtain ⟨n, rfl⟩ := Nat.exists_eq_succ_of_ne_zero (Nat.ne_of_gt (Nat.lt_of_succ_lt hn))
  rw [Machine.run, Machine.step_done hi (Machine.perform_cast hx hy)]
  exact run_return hend ht hr hc (by omega)

/-- The wrapper returns the result of the entry point as a word of 32 bits. -/
theorem invoke_wrapper {m : Module} {limit fuel left : Nat} {store store' : Store} {id : FuncId}
    {sig : Signature} {name : String} {ret : Ir.Ty} {v : Option Val}
    (hf : m.function? id = some (wrapperCode sig name ret)) (hret : ret = .void ∨ ret.isInt = true)
    (hrun : Machine.invoke m limit fuel store sig.func [] = ⟨.ok v, store', left⟩) (hleft : 3 ≤ left)
    (hv : Machine.Returns ret v) :
    ∃ w, (Machine.invoke m (limit + 1) fuel store id []).result = .ok (some (.int w)) ∧
      (Word.signExtend w 32).toInt =
        wrapInt true 32 (entryResult sig.ret.isSignedInt (ret.intBits?.getD 64) v) := by
  unfold wrapperCode at hf
  dsimp only at hf
  split at hf
  · rename_i hvoid
    obtain ⟨calls, hinvoke⟩ := Machine.invoke_calling m hf rfl rfl rfl hrun (by omega)
    refine ⟨0, ?_, ?_⟩
    · rw [hinvoke]
      exact run_return rfl rfl rfl rfl (by omega)
    · have hnone : v = none := by
        cases v with
        | none => rfl
        | some x =>
          rw [hvoid] at hv
          cases x with
          | int w => obtain ⟨n, hn, -⟩ := hv; cases hn
          | float f => cases hv
          | ptr a => cases hv
      subst hnone
      show (Word.signExtend 0 32).toInt = wrapInt true 32 0
      decide
  · rename_i hvoid
    obtain ⟨bits, hbits⟩ := Option.isSome_iff_exists.1 (hret.resolve_left hvoid)
    obtain ⟨w, rfl, hw⟩ : ∃ w, v = some (.int w) ∧ w.toNat < 2 ^ bits := by
      cases v with
      | none => exact absurd hv hvoid
      | some x =>
        cases x with
        | int w =>
          obtain ⟨n, hn, hlt⟩ := hv
          obtain rfl : bits = n := Option.some.inj (hbits.symm.trans hn)
          exact ⟨w, rfl, hlt⟩
        | float f =>
          rw [Machine.Returns, Val.Fits] at hv
          cases ret <;> simp_all [Ir.Ty.isFloat, Ir.Ty.intBits?]
        | ptr a =>
          obtain rfl : ret = .ptr := hv
          cases hbits
    have hpos : 0 < bits := by
      cases ret <;> simp_all [Ir.Ty.intBits?] <;> omega
    have hexit : (Word.signExtend (exitWord sig.ret.isSignedInt bits w) 32).toInt = _ :=
      toInt_exitWord hpos (Ir.Emit.intBits?_le hbits) hw
    rw [hbits, Option.getD_some] at hf ⊢
    split at hf
    · rename_i h32
      obtain ⟨calls, hinvoke⟩ := Machine.invoke_calling m hf rfl rfl rfl hrun (by omega)
      refine ⟨w, ?_, ?_⟩
      · rw [hinvoke]
        exact run_return rfl rfl rfl rfl (by omega)
      · unfold exitWord at hexit
        rw [if_pos h32] at hexit
        exact hexit
    · rename_i h32
      obtain ⟨calls, hinvoke⟩ := Machine.invoke_calling m hf rfl rfl rfl hrun (by omega)
      refine ⟨exitWord sig.ret.isSignedInt bits w, ?_, hexit⟩
      rw [hinvoke]
      exact run_cast_return rfl rfl rfl rfl (convert_exitCast hbits h32 w) rfl rfl (by omega)

/-! ### Sessions -/

/-- Among different names a function is found under its own. -/
theorem functionNamed?_eq {m : Module} (hnames : ∀ {i j f g}, m.function? i = some f →
    m.function? j = some g → f.name = g.name → i = j) {id : FuncId} {f : Function}
    (hf : m.function? id = some f) : m.functionNamed? f.name = some id := by
  unfold Module.functionNamed?
  obtain ⟨i, hi⟩ : ∃ i, m.functions.findIdx? (·.name == f.name) = some i := by
    refine Option.isSome_iff_exists.1 ?_
    rw [Array.findIdx?_isSome, Array.any_eq_true]
    obtain ⟨hlt, hget⟩ := Array.getElem?_eq_some_iff.1 hf
    exact ⟨id.index, hlt, by simp [hget]⟩
  obtain ⟨hlt, hname, -⟩ := Array.findIdx?_eq_some_iff_getElem.1 hi
  rw [hi, Option.map_some]
  refine congrArg some (hnames (f := m.functions[i]) (g := f) ?_ hf (by simpa using hname))
  simp [Module.function?, hlt]

/-- The session with room for one frame less. -/
def below (s : Session) : Session :=
  { s with limits := { s.limits with maxCallDepth := s.limits.maxCallDepth - 1 } }

section

variable {config : Config} {allocator : Allocator} {p : Program}

/-- The wrapper has a name of its own. -/
theorem names_with_wrapper {m : Module} {w : Function}
    (hnames : ∀ {i j f g}, m.function? i = some f → m.function? j = some g → f.name = g.name → i = j)
    (hw : ∀ {i f}, m.function? i = some f → f.name ≠ w.name) {i j : FuncId} {f g : Function}
    (hf : ({ m with functions := m.functions.push w } : Module).function? i = some f)
    (hg : ({ m with functions := m.functions.push w } : Module).function? j = some g)
    (h : f.name = g.name) : i = j := by
  simp only [Module.function?, Array.getElem?_push] at hf hg
  split at hf
  · rename_i hi
    split at hg
    · rename_i hj
      exact Ir.Id.ext (hi.trans hj.symm)
    · cases hf
      exact absurd h.symm (hw hg)
  · split at hg
    · cases hg
      exact absurd h (hw hf)
    · exact hnames hf hg h

theorem outcome_eq {o : Outcome} {v : Option Val} (h : o.result = .ok v) : o = ⟨.ok v, o.store, o.fuel⟩ := by
  rw [← h]

theorem not_ok_of_no_room {m : Module} {limit fuel : Nat} {store : Store} {id : FuncId} {args : List Val}
    {v : Option Val} (h : limit = 0) : (Machine.invoke m limit fuel store id args).result ≠ .ok v := by
  intro hv
  cases hF : Frame.ofCall m limit id args 0 with
  | error e =>
    unfold Machine.invoke at hv
    rw [hF] at hv
    cases hv
  | ok F =>
    unfold Frame.ofCall at hF
    dsimp only at hF
    split at hF
    · cases hF
    · split at hF
      · cases hF
      · rw [if_pos (by omega)] at hF
        cases hF

/-- A call from a session is a call of the machine. -/
theorem call_eq {s : Session} (hbits : s.module.pointerBits = 64) {name : String} {id : FuncId}
    (hid : s.module.functionNamed? name = some id) (args : List Val) :
    s.call name args =
      ((Machine.invoke s.module s.limits.maxCallDepth s.fuelLeft s.store id args).result,
        { s with
          store := (Machine.invoke s.module s.limits.maxCallDepth s.fuelLeft s.store id args).store
          fuelLeft := (Machine.invoke s.module s.limits.maxCallDepth s.fuelLeft s.store id args).fuel }) := by
  unfold Session.call
  rw [if_neg (by simp [hbits]), hid]

/-- If no other definition has a name that the entry point needs, the functions of a program without errors
have different names, and the function `main` is the wrapper around the entry point. Where the entry point
returns, called on its own with one frame less to use and with three steps of fuel left over, the exit code
of the program is the number that it returns, wrapped to 32 bits. -/
theorem main_wraps_the_entry_point (ha : allocator.IsInline) (hfree : SymbolsFree config p)
    (herr : (lowerProgram config allocator p).hasErrors = false) :
    (∀ {i j f g}, (lowerProgram config allocator p).module.function? i = some f →
      (lowerProgram config allocator p).module.function? j = some g → f.name = g.name → i = j) ∧
    ∀ e, entryDefinition? config p = some e → ∃ sig,
      (Collection.ofProgram config p).tables.function? e.symbol = some sig ∧
      (∃ id, (lowerProgram config allocator p).module.functionNamed? wrapperName = some id ∧
        (lowerProgram config allocator p).module.function? id =
          some (wrapperCode sig e.symbol (config.layout.returnIrType sig.ret))) ∧
      (allocator.Sound → config.pointerBits = 64 → ∀ (s : Session) (v : Option Val),
        s.module = (lowerProgram config allocator p).module →
        ((below s).call (Collection.irName config e) []).1 = .ok v →
        3 ≤ ((below s).call (Collection.irName config e) []).2.fuelLeft →
        Machine.Returns (config.layout.returnIrType sig.ret) v ∧
        s.runMain.1 = .ok (wrapInt true 32 (entryResult sig.ret.isSignedInt
          ((config.layout.returnIrType sig.ret).intBits?.getD 64) v))) := by
  rcases lowerProgram_cases ha herr with ⟨hnone, hm⟩ | ⟨d, sig, hd, hdecl, hkind, hrec, hparams, hm⟩
  · rw [hm]
    refine ⟨fun hf hg => names_of_definitions ha hfree hf hg, fun e he => ?_⟩
    rw [hnone] at he
    cases he
  · have hpointer := (lowerFirst_ready config ha (Nat.le_refl _) (p := p)).pointerBits
    have hlast : (lowerProgram config allocator p).module.function?
        ⟨(lowerFirst config allocator p p.functions.length).1.functions.size⟩ =
        some (wrapperCode sig d.symbol (config.layout.returnIrType sig.ret)) := by
      rw [hm]
      exact Array.getElem?_push_size
    have hname : (wrapperCode sig d.symbol (config.layout.returnIrType sig.ret)).name = wrapperName := by
      unfold wrapperCode
      dsimp only
      split
      · rfl
      · split <;> rfl
    have hnames : ∀ {i j f g}, (lowerProgram config allocator p).module.function? i = some f →
        (lowerProgram config allocator p).module.function? j = some g → f.name = g.name → i = j := by
      rw [hm]
      refine names_with_wrapper (fun hf hg => names_of_definitions ha hfree hf hg) fun hf => ?_
      obtain ⟨d', sig', hd', -, hn⟩ := definition_of_function ha hf
      rw [hn, hname]
      exact irName_ne_wrapperName hfree hd hdecl hd'
    refine ⟨hnames, fun e he => ?_⟩
    obtain rfl : d = e := Option.some.inj (hd.symm.trans he)
    have hmain := functionNamed?_eq hnames hlast
    rw [hname] at hmain
    refine ⟨sig, hdecl.2.1, ⟨_, hmain, hlast⟩, fun hsound hbits s v hs hcall hfuel => ?_⟩
    obtain ⟨f, hf, hhead⟩ := (hdecl.lowered ha).2
    simp only [Function.head, Prod.mk.injEq] at hhead
    have hf' : (lowerProgram config allocator p).module.function? sig.func = some f := by
      rw [hm]
      exact @Ir.Builder.function?_last _ _ none 0 _ _ hf
    have hentry : (lowerProgram config allocator p).module.functionNamed? (Collection.irName config d) =
        some sig.func := hhead.1 ▸ functionNamed?_eq hnames hf'
    have hbits' : (lowerProgram config allocator p).module.pointerBits = 64 := by
      rw [hm]
      exact hpointer.trans ((Collection.ofProgram_fits config p).pointerBits.trans hbits)
    rw [← hs] at hmain hlast hentry hf' hbits'
    have hwell := lowerProgram_wellTyped (.inr (.inr hbits)) ha hsound herr
    rw [← hs] at hwell
    have hnil : f.params = [] := by rw [hhead.2.1, hrec, hparams]; rfl
    rw [call_eq (s := below s) hbits' hentry] at hcall hfuel
    have hv : Machine.Returns (config.layout.returnIrType sig.ret) v :=
      hhead.2.2 ▸ Machine.invoke_returns hwell hf' (by rw [hnil]; exact .nil) hcall
    have hroom : s.limits.maxCallDepth = s.limits.maxCallDepth - 1 + 1 := by
      refine (Nat.sub_add_cancel (Nat.one_le_iff_ne_zero.2 fun hzero => ?_)).symm
      refine not_ok_of_no_room ?_ hcall
      show s.limits.maxCallDepth - 1 = 0
      omega
    obtain ⟨w, hw, hexit⟩ := invoke_wrapper hlast
      (hkind.symm.imp (returnIrType_eq_void sig.ret).2 returnIrType_isInt)
      (outcome_eq hcall) hfuel hv
    refine ⟨hv, ?_⟩
    have hmain' : s.call "main" [] = _ := call_eq hbits' hmain []
    rw [Session.runMain, hmain', hroom]
    show (Machine.invoke s.module ((below s).limits.maxCallDepth + 1) (below s).fuelLeft (below s).store
      _ []).result.bind Session.exitCode = _
    rw [hw]
    exact congrArg Except.ok hexit

/-- A function without parameters that returns a constant. -/
def returning (symbol : String) (t : Source.TypeExpr) (x : UInt64) : FunctionDef where
  symbol := symbol
  receiver := none
  params := []
  returnType := t
  body := [.ret ⟨2, 3⟩ (some (.int ⟨0, 1⟩ x))]
  span := ⟨4, 5⟩

/-- Two functions that return constants. -/
def returningPair (first second : String) (t : Source.TypeExpr) (x y : UInt64) : Program where
  structs := []
  functions := [returning first t x, returning second t y]

theorem main_wraps_the_entry_point_byte :
    (∃ id, (lowerProgram {} .collector (returningPair "main" "other" (.named "u8") 200 3)).module.functionNamed?
      wrapperName = some id) ∧
    (Session.start (lowerProgram {} .collector (returningPair "main" "other" (.named "u8") 200 3)).module
      ⟨10, 2⟩).runMain.1 = .ok 200 := by
  have hfree : SymbolsFree {} (returningPair "main" "other" (.named "u8") 200 3) := by
    rintro e - d hd
    simp only [returningPair, List.mem_cons, List.not_mem_nil, or_false] at hd
    rcases hd with rfl | rfl
    · exact ⟨by decide, fun _ => rfl⟩
    · exact ⟨by decide, fun h => absurd h (by decide)⟩
  obtain ⟨-, h⟩ := main_wraps_the_entry_point collector_inline hfree (by decide +kernel)
  obtain ⟨sig, hsig, ⟨id, hid, -⟩, hrun⟩ := h (returning "main" (.named "u8") 200) rfl
  refine ⟨⟨id, hid⟩, ?_⟩
  have hret : ((Collection.ofProgram {} (returningPair "main" "other" (.named "u8") 200 3)).tables.function?
      "main").map (·.ret) = some (.unsigned .w8) := by decide +kernel
  rw [show (returning "main" (.named "u8") 200).symbol = "main" from rfl] at hsig
  rw [hsig, Option.map_some, Option.some.injEq] at hret
  have hentry : ((below (Session.start (lowerProgram {} .collector
      (returningPair "main" "other" (.named "u8") 200 3)).module ⟨10, 2⟩)).call "reso.main" []).1 =
      .ok (some (.int 200)) := by decide +kernel
  have hfuel : 3 ≤ ((below (Session.start (lowerProgram {} .collector
      (returningPair "main" "other" (.named "u8") 200 3)).module ⟨10, 2⟩)).call "reso.main" []).2.fuelLeft := by
    decide +kernel
  have hname : Collection.irName {} (returning "main" (.named "u8") 200) = "reso.main" := by decide
  obtain ⟨-, hmain⟩ := hrun collector_sound rfl (Session.start (lowerProgram {} .collector
    (returningPair "main" "other" (.named "u8") 200 3)).module ⟨10, 2⟩) _ (by rw [Session.start])
    (by rw [hname]; exact hentry) (by rw [hname]; exact hfuel)
  rw [hmain, hret]
  decide +kernel

/-- A function `main` beside an entry point of another name takes the place of the wrapper. -/
theorem main_beside_the_entry_point :
    (lowerProgram { entryPoint := "start" } .collector
      (returningPair "start" "main" (.named "i32") 7 3)).hasErrors = false ∧
    (lowerProgram { entryPoint := "start" } .collector
      (returningPair "start" "main" (.named "i32") 7 3)).module.functions.toList.map (·.name) =
        ["reso.start", "main", "main"] ∧
    ((Session.start (lowerProgram { entryPoint := "start" } .collector
      (returningPair "start" "main" (.named "i32") 7 3)).module ⟨10, 2⟩).call "reso.start" []).1 =
        .ok (some (.int 7)) ∧
    (Session.start (lowerProgram { entryPoint := "start" } .collector
      (returningPair "start" "main" (.named "i32") 7 3)).module ⟨10, 2⟩).runMain.1 = .ok 3 := by
  decide +kernel

end

end BlockForge.Lowering
