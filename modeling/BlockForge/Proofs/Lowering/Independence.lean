import BlockForge.Proofs.Lowering.Definitions
import BlockForge.Proofs.Lowering.Twins

/-!
# Bodies on their own

Each definition is lowered as it would be beside any other bodies: what it is lowered to depends on the
declarations of the program and on its own body. Only the numbers of constant texts and of host functions tell
what else has been lowered, so they are replaced by what they stand for.
-/

namespace BlockForge.Ir

/-! ### Linked functions -/

/-- What a value is, with a text in place of its number. -/
inductive LinkedKind where
  | local (kind : ValueKind)
  | text (bytes : Array UInt8)

structure LinkedValue where
  ty : Ty
  kind : LinkedKind
  name : String

/-- What an instruction does, with a host function in place of its number. -/
inductive LinkedCode where
  | local (kind : InstKind)
  | callHost (host : HostDecl) (args : List ValueId) (ret : Ty)

structure LinkedInst where
  result : Option ValueId
  code : LinkedCode

structure LinkedBlock where
  name : String
  insts : List LinkedInst
  terminator : Option Terminator

/-- A function with texts and host functions in place of their numbers. -/
structure LinkedFunction where
  name : String
  params : List Ty
  ret : Ty
  values : List LinkedValue
  blocks : List LinkedBlock

def ValueKind.linked? (m : Module) : ValueKind → Option LinkedKind
  | .global i => (m.globals[i.index]?).map fun g => .text g.bytes
  | kind => some (.local kind)

def InstKind.linked? (m : Module) : InstKind → Option LinkedCode
  | .call (.host i) args ret => (m.host? i).map fun d => .callHost d args ret
  | kind => some (.local kind)

def Value.linked? (m : Module) (v : Value) : Option LinkedValue :=
  (v.kind.linked? m).map fun kind => ⟨v.ty, kind, v.name⟩

def Inst.linked? (m : Module) (i : Inst) : Option LinkedInst :=
  (i.kind.linked? m).map fun code => ⟨i.result, code⟩

def Block.linked? (m : Module) (b : Block) : Option LinkedBlock :=
  (b.insts.toList.mapM (Inst.linked? m)).map fun insts => ⟨b.name, insts, b.terminator⟩

/-- The function as it is linked; nothing if a number stands for nothing. -/
def Function.linked? (m : Module) (f : Function) : Option LinkedFunction := do
  let values ← f.values.toList.mapM (Value.linked? m)
  let blocks ← f.blocks.toList.mapM (Block.linked? m)
  pure ⟨f.name, f.params, f.ret, values, blocks⟩

section

variable {m n : Module}

theorem exists_mapM {α β γ : Type} {R : α → β → Prop} {xs : List α} {ys : List β} (hp : List.Forall₂ R xs ys)
    {F : α → Option γ} {G : β → Option γ} (h : ∀ a b, R a b → ∃ c, F a = some c ∧ G b = some c) :
    ∃ zs, xs.mapM F = some zs ∧ ys.mapM G = some zs := by
  induction hp with
  | nil => exact ⟨[], rfl, rfl⟩
  | cons hab _ ih =>
    obtain ⟨c, hF, hG⟩ := h _ _ hab
    obtain ⟨zs, hxs, hys⟩ := ih
    exact ⟨c :: zs, by simp [List.mapM_cons, hF, hxs], by simp [List.mapM_cons, hG, hys]⟩

theorem Value.Alike.linked {v w : Value} (h : v.Alike m.shared n.shared w) :
    ∃ x, v.linked? m = some x ∧ w.linked? n = some x := by
  cases h with
  | same hv =>
    have hkind : ∀ m : Module, v.kind.linked? m = some (.local v.kind) := by
      intro m
      cases hk : v.kind with
      | global i => exact absurd hk (hv i)
      | _ => rfl
    exact ⟨_, by rw [Value.linked?, hkind]; rfl, by rw [Value.linked?, hkind]; rfl⟩
  | text hi hj hb =>
    refine ⟨_, by rw [Value.linked?, ValueKind.linked?, show m.globals[_]? = _ from hi]; rfl, ?_⟩
    rw [Value.linked?, ValueKind.linked?, show n.globals[_]? = _ from hj]
    simp [hb]

theorem Inst.Alike.linked {i j : Inst} (h : i.Alike m.shared n.shared j) :
    ∃ x, i.linked? m = some x ∧ j.linked? n = some x := by
  cases h with
  | same hi =>
    have hkind : ∀ m : Module, i.kind.linked? m = some (.local i.kind) := by
      intro m
      unfold InstKind.linked?
      split
      · rename_i hk
        rw [hk] at hi
        cases hi
      · rfl
    exact ⟨_, by rw [Inst.linked?, hkind]; rfl, by rw [Inst.linked?, hkind]; rfl⟩
  | host hi hj =>
    refine ⟨_, by rw [Inst.linked?, InstKind.linked?, show m.host? _ = _ from hi]; rfl, ?_⟩
    rw [Inst.linked?, InstKind.linked?, show n.host? _ = _ from hj]
    rfl

theorem Block.Alike.linked {b c : Block} (h : b.Alike m.shared n.shared c) :
    ∃ x, b.linked? m = some x ∧ c.linked? n = some x := by
  obtain ⟨insts, hb, hc⟩ := exists_mapM h.insts fun _ _ => Inst.Alike.linked
  refine ⟨⟨b.name, insts, b.terminator⟩, by rw [Block.linked?, hb]; rfl, ?_⟩
  rw [Block.linked?, hc, h.name, h.terminator]
  rfl

/-- Alike functions are linked to the same. -/
theorem Function.Alike.linked {f g : Function} (h : f.Alike m.shared n.shared g) :
    ∃ x, f.linked? m = some x ∧ g.linked? n = some x := by
  obtain ⟨values, hf, hg⟩ := exists_mapM h.values fun _ _ => Value.Alike.linked
  obtain ⟨blocks, hf', hg'⟩ := exists_mapM h.blocks fun _ _ => Block.Alike.linked
  refine ⟨⟨f.name, f.params, f.ret, values, blocks⟩, by rw [Function.linked?, hf, hf']; rfl, ?_⟩
  rw [Function.linked?, hg, hg', h.name, h.params, h.ret]
  rfl

end

end BlockForge.Ir

namespace BlockForge.Source

/-- The definition without its body. -/
def FunctionDef.declaration (d : FunctionDef) : FunctionDef := { d with body := [] }

/-- The program with another body of the definition at a position. -/
def Program.withBody (p : Program) (position : Nat) (body : List Stmt) : Program :=
  { p with functions := p.functions.modify position fun d => { d with body } }

theorem Program.declarations_withBody (p : Program) (position : Nat) (body : List Stmt) :
    (p.withBody position body).functions.map FunctionDef.declaration =
      p.functions.map FunctionDef.declaration := by
  refine List.ext_getElem? fun i => ?_
  simp only [withBody, List.getElem?_map, List.getElem?_modify]
  cases p.functions[i]? with
  | none => simp
  | some d =>
    by_cases hi : position = i <;> simp [hi, FunctionDef.declaration]

end BlockForge.Source

namespace BlockForge.Lowering

open Diagnostic (Queue)
open Ir (Builder Emit Module Peers)
open Source (FunctionDef Program Stmt)
open StateM

/-! ### Declarations -/

namespace Collection

/-- What is declared does not depend on bodies. -/
theorem declareFunction_declaration (config : Config) (all : List FunctionDef) (c : Collection) (position : Nat)
    (d : FunctionDef) : c.declareFunction config (all.map FunctionDef.declaration) position d.declaration =
      c.declareFunction config all position d := by
  have hfirst : (((all.map FunctionDef.declaration).take position).find? (·.symbol == d.symbol)).elim d.span
      (·.span) = ((all.take position).find? (·.symbol == d.symbol)).elim d.span (·.span) := by
    rw [← List.map_take, List.find?_map, Option.elim_map]
    rfl
  have hmethod : ∀ (c : Collection) (receiver : Option Types.Ty),
      c.firstMethodSpan (all.map FunctionDef.declaration) receiver d.declaration =
        c.firstMethodSpan all receiver d := by
    intro c receiver
    have hspan : ∀ sig : Option Signature,
        (sig.bind fun sig => (all.map FunctionDef.declaration)[sig.definition]?).elim d.span (·.span) =
          (sig.bind fun sig => all[sig.definition]?).elim d.span (·.span) := by
      intro sig
      cases sig with
      | none => rfl
      | some sig =>
        simp only [Option.bind_some, List.getElem?_map]
        cases all[sig.definition]? <;> rfl
    exact hspan _
  unfold declareFunction
  simp only [hmethod]
  rw [← hfirst]
  rfl

theorem ofProgram_withBody (config : Config) (p : Program) (position : Nat) (body : List Stmt) :
    ofProgram config (p.withBody position body) = ofProgram config p := by
  have hdecl : ∀ p : Program, ofProgram config p =
      ((p.functions.map FunctionDef.declaration).zipIdx.foldl
        (fun c e => c.declareFunction config (p.functions.map FunctionDef.declaration) e.2 e.1)
        ((start config).declareRecords config.layout p.structs)) := by
    intro p
    rw [ofProgram, List.zipIdx_map, List.foldl_map]
    congr 1
    funext c e
    exact (declareFunction_declaration config p.functions c e.2 e.1).symm
  rw [hdecl, hdecl p, p.declarations_withBody]
  rfl

end Collection

/-! ### One definition in two modules -/

section

variable {config : Config} {allocator : Allocator} {tables : Tables} {sig : Signature} {name : String}
  {params : List Ir.Ty} {ret : Ir.Ty}

/-- A definition is lowered to the same in two modules where its function is declared. -/
theorem lowerBody_twins (P : Peers) (hP : P.func = sig.func) (ha : allocator.Even P) (hl : P.left.HostsKnown)
    (hr : P.right.HostsKnown) (hleft : P.left.function? sig.func = some (.declare name params ret))
    (hright : P.right.function? sig.func = some (.declare name params ret)) (q q' : Queue) (d : FunctionDef) :
    (lowerBody config allocator tables (P.left, q) d sig).builder.Twins P
      (lowerBody config allocator tables (P.right, q') d sig).builder := by
  have along : ∀ {m : Module}, m.function? sig.func = some (.declare name params ret) →
      ({ module := m, func := sig.func } : Builder).Along m P.func :=
    fun hf => ⟨hP.symm, (Array.getElem?_eq_some_iff.1 hf).1, rfl, rfl, fun _ => rfl, fun _ _ => rfl, .refl _⟩
  have start : (Builder.start P.left sig.func).Twins P (.start P.right sig.func) := by
    rw [Ir.Emit.start_eq hleft, Ir.Emit.start_eq hright]
    refine ⟨rfl, rfl, along hleft, along hright, hl, hr, ?_⟩
    simp only [Builder.function, hleft, hright, Option.getD_some]
    exact Ir.Function.declare_alike name params ret
  exact lowerFunction_twins ha d sig start q q'

/-- A definition leaves the rest of its module alone. -/
theorem lowerBody_along {m : Module} (ha : ∀ P, allocator.Even P) (hm : m.HostsKnown)
    (hf : m.function? sig.func = some (.declare name params ret)) (q : Queue) (d : FunctionDef) :
    (lowerBody config allocator tables (m, q) d sig).builder.Along m sig.func ∧
      (lowerBody config allocator tables (m, q) d sig).builder.module.HostsKnown :=
  have h := lowerBody_twins ⟨m, m, sig.func, rfl, rfl, fun _ => rfl⟩ rfl (ha _) hm hm hf hf q q d
  ⟨h.left, h.leftKnown⟩

end

/-! ### Two programs -/

/-- Modules of two programs that differ in the body of the definition `g`, once the definitions before a
position have been lowered. -/
structure Abreast (p : Program) (c : Collection) (g position : Nat) (m n : Module) : Prop where
  pointerBits : n.pointerBits = m.pointerBits
  structs : n.structs = m.structs
  heads : ∀ j, (n.function? j).map Ir.Function.head = (m.function? j).map Ir.Function.head
  left : m.HostsKnown
  right : n.HostsKnown
  todo : ∀ r ∈ c.tables.functions, position ≤ r.2.definition →
    m.function? r.2.func = c.module.function? r.2.func ∧ n.function? r.2.func = c.module.function? r.2.func
  done : ∀ {i d sig}, i < position → i ≠ g → Declares p c.tables i d sig →
    ∃ f h, m.function? sig.func = some f ∧ n.function? sig.func = some h ∧ f.Alike m.shared n.shared h

namespace Abreast

variable {config : Config} {allocator : Allocator} {p : Program} {c : Collection} {g position : Nat}
  {m n : Module}

theorem start (hc : c.Fits config) : Abreast p c g 0 c.module c.module where
  pointerBits := rfl
  structs := rfl
  heads _ := rfl
  left d hd := by simp [hc.hosts] at hd
  right d hd := by simp [hc.hosts] at hd
  todo _ _ _ := ⟨rfl, rfl⟩
  done hi := absurd hi (Nat.not_lt_zero _)

/-- The next definition has been lowered in both, alike unless it is `g`. -/
theorem next (hc : c.Fits config) (h : Abreast p c g position m n) {d : FunctionDef} {sig : Signature}
    (hd : Declares p c.tables position d sig) {b b' : Builder}
    (hl : b.Along m sig.func ∧ b.module.HostsKnown) (hr : b'.Along n sig.func ∧ b'.module.HostsKnown)
    (ha : position ≠ g → b.function.Alike b.module.shared b'.module.shared b'.function) :
    Abreast p c g (position + 1) b.module b'.module := by
  have hmem := mem_of_lookup hd.2.1
  obtain ⟨⟨hl, hlk⟩, hr, hrk⟩ := And.intro hl hr
  -- another definition has another function
  have hapart : ∀ r ∈ c.tables.functions, r.2.definition ≠ position → r.2.func ≠ sig.func := by
    intro r hr' hne he
    rw [hc.functionsApart r hr' _ hmem he] at hne
    exact hne hd.2.2
  have hothers : ∀ r ∈ c.tables.functions, r.2.definition ≠ position →
      b.module.function? r.2.func = m.function? r.2.func ∧ b'.module.function? r.2.func = n.function? r.2.func :=
    fun r hr' hne => ⟨hl.others _ (by rw [hl.func]; exact hapart r hr' hne),
      hr.others _ (by rw [hr.func]; exact hapart r hr' hne)⟩
  refine ⟨?_, ?_, fun j => ?_, hlk, hrk, fun r hr' hle => ?_, fun {i e sig'} hi hg he => ?_⟩
  · rw [hr.pointerBits, h.pointerBits, hl.pointerBits]
  · rw [hr.structs, h.structs, hl.structs]
  · rw [hr.heads, h.heads, hl.heads]
  · obtain ⟨hb, hb'⟩ := hothers r hr' (by omega)
    rw [hb, hb']
    exact h.todo r hr' (by omega)
  · rcases Nat.lt_succ_iff_lt_or_eq.1 hi with hi | rfl
    · obtain ⟨hb, hb'⟩ := hothers _ (mem_of_lookup he.2.1) (by rw [he.2.2]; exact Nat.ne_of_lt hi)
      obtain ⟨f, f', hf, hf', halike⟩ := h.done hi hg he
      exact ⟨f, f', hb.trans hf, hb'.trans hf', halike.grows hl.shared hr.shared⟩
    · obtain rfl : d = e := Option.some.inj (hd.1.symm.trans he.1)
      obtain rfl : sig = sig' := Option.some.inj (hd.2.1.symm.trans he.2.1)
      refine ⟨b.function, b'.function, ?_, ?_, ha hg⟩
      · rw [← hl.func]
        exact Builder.function?_eq hl.valid
      · rw [← hr.func]
        exact Builder.function?_eq hr.valid

/-- Both programs go on with their next definitions, which are the same unless they are `g`. -/
theorem lower (hc : c.Fits config) (ha : ∀ P, allocator.Even P) (h : Abreast p c g position m n)
    {d e : FunctionDef} {sig : Signature} (hd : Declares p c.tables position d sig) (he : position ≠ g → e = d)
    (q q' : Queue) :
    Abreast p c g (position + 1) (lowerBody config allocator c.tables (m, q) d sig).builder.module
      (lowerBody config allocator c.tables (n, q') e sig).builder.module := by
  have hmem := mem_of_lookup hd.2.1
  obtain ⟨name, hf⟩ := hc.functions _ hmem
  obtain ⟨hm, hn⟩ := h.todo _ hmem (Nat.le_of_eq hd.2.2.symm)
  rw [hf] at hm hn
  refine h.next hc hd (lowerBody_along ha h.left hm q d) (lowerBody_along ha h.right hn q' e) fun hne => ?_
  obtain rfl := he hne
  exact (lowerBody_twins ⟨m, n, sig.func, h.pointerBits, h.structs, h.heads⟩ rfl (ha _) h.left h.right hm hn q q'
    e).function

/-- Definitions that are passed over. -/
theorem skip (h : Abreast p c g position m n) {d : FunctionDef} (hd : p.functions[position]? = some d)
    (hno : ∀ sig, ¬Declares p c.tables position d sig) : Abreast p c g (position + 1) m n :=
  { h with
    todo := fun r hr hle => h.todo r hr (by omega)
    done := fun {i e sig} hi hg he => by
      rcases Nat.lt_succ_iff_lt_or_eq.1 hi with hi | rfl
      · exact h.done hi hg he
      · obtain rfl : d = e := Option.some.inj (hd.symm.trans he.1)
        exact absurd he (hno sig) }

end Abreast

section

variable {config : Config} {allocator : Allocator} {p : Program}

theorem getElem?_withBody (p : Program) (g : Nat) (body : List Stmt) {i : Nat} {d : FunctionDef}
    (hd : p.functions[i]? = some d) :
    (p.withBody g body).functions[i]? = some (if g = i then { d with body } else d) := by
  simp only [Program.withBody, List.getElem?_modify, hd]
  split <;> rfl

/-- What is declared where is the same. -/
theorem declares_withBody {tables : Tables} (g : Nat) (body : List Stmt) {i : Nat} {d : FunctionDef}
    {sig : Signature} (h : Declares p tables i d sig) :
    Declares (p.withBody g body) tables i (if g = i then { d with body } else d) sig := by
  refine ⟨getElem?_withBody p g body h.1, ?_, h.2.2⟩
  split <;> exact h.2.1

theorem lowerFirst_abreast (ha : ∀ P, allocator.Even P) (g : Nat) (body : List Stmt) {n : Nat}
    (hn : n ≤ p.functions.length) : Abreast p (.ofProgram config p) g n (lowerFirst config allocator p n).1
      (lowerFirst config allocator (p.withBody g body) n).1 := by
  have hc := Collection.ofProgram_fits config p
  have hlength : (p.withBody g body).functions.length = p.functions.length := by simp [Program.withBody]
  have hsame := Collection.ofProgram_withBody config p g body
  induction n with
  | zero =>
    have hzero : (lowerFirst config allocator (p.withBody g body) 0).1 = (Collection.ofProgram config p).module := by
      rw [← hsame]
      rfl
    rw [hzero]
    exact .start hc
  | succ n ih =>
    have hd : p.functions[n]? = some p.functions[n] := List.getElem?_eq_getElem hn
    have he := getElem?_withBody p g body hd
    have hn' : n < (p.withBody g body).functions.length := by rw [hlength]; exact hn
    rw [lowerFirst_succ config allocator hn, lowerFirst_succ config allocator hn',
      (List.getElem?_eq_some_iff.1 he).2, hsame]
    have hfirst := ih (Nat.le_of_lt hn)
    rcases lowerDefinition_cases config allocator (lowerFirst config allocator p n) hd with
      ⟨sig, hdecl, heq⟩ | ⟨hno, heq⟩
    · have hdecl' := declares_withBody g body hdecl
      rcases lowerDefinition_cases config allocator (lowerFirst config allocator (p.withBody g body) n) he with
        ⟨sig', hsig', heq'⟩ | ⟨hno', -⟩
      · obtain rfl : sig = sig' := Option.some.inj (hdecl'.2.1.symm.trans hsig'.2.1)
        rw [heq, heq']
        exact hfirst.lower hc ha hdecl (fun hne => if_neg (Ne.symm hne)) _ _
      · exact absurd hdecl' (hno' sig)
    · rcases lowerDefinition_cases config allocator (lowerFirst config allocator (p.withBody g body) n) he with
        ⟨sig', hsig', -⟩ | ⟨-, heq'⟩
      · refine absurd ⟨hd, ?_, hsig'.2.2⟩ (hno sig')
        have := hsig'.2.1
        split at this <;> exact this
      · rw [heq, heq']
        exact hfirst.skip hd hno

/-- Nothing is taken back once the definitions have been lowered. -/
theorem lowerProgram_grows (config : Config) (allocator : Allocator) (p : Program) :
    (lowerFirst config allocator p p.functions.length).1.Grows (lowerProgram config allocator p).module ∧
      ∀ {j f}, (lowerFirst config allocator p p.functions.length).1.function? j = some f →
        (lowerProgram config allocator p).module.function? j = some f := by
  rw [lowerProgram_eq]
  exact addEntryWrapper_grows config p _ _

/-- What a definition is lowered to does not depend on the bodies of the others. -/
theorem bodies_are_lowered_alone (config : Config) (p : Program) (g : Nat) (body : List Stmt) {i : Nat}
    {d : FunctionDef} {sig : Signature} (hd : Declares p (Collection.ofProgram config p).tables i d sig)
    (hi : i ≠ g) :
    let m := (lowerProgram config .collector p).module
    let n := (lowerProgram config .collector (p.withBody g body)).module
    Declares (p.withBody g body) (Collection.ofProgram config (p.withBody g body)).tables i d sig ∧
      ∃ f h linked, m.function? sig.func = some f ∧ n.function? sig.func = some h ∧
        f.linked? m = some linked ∧ h.linked? n = some linked := by
  intro m n
  have hdecl := declares_withBody g body hd
  rw [if_neg (Ne.symm hi)] at hdecl
  refine ⟨by rw [Collection.ofProgram_withBody]; exact hdecl, ?_⟩
  have hlength : (p.withBody g body).functions.length = p.functions.length := by simp [Program.withBody]
  have habreast := @lowerFirst_abreast config .collector p (fun _ => collector_even) g body _ (Nat.le_refl _)
  obtain ⟨f, h, hf, hh, halike⟩ := habreast.done (List.getElem?_eq_some_iff.1 hd.1).1 hi hd
  obtain ⟨hm, hfm⟩ := lowerProgram_grows config .collector p
  obtain ⟨hn, hfn⟩ := lowerProgram_grows config .collector (p.withBody g body)
  rw [hlength] at hn hfn
  have hshared : f.Alike m.shared n.shared h :=
    halike.grows ⟨hm.globals, hm.hosts⟩ ⟨hn.globals, hn.hosts⟩
  obtain ⟨linked, hlinked⟩ := hshared.linked
  exact ⟨f, h, linked, hfm hf, hfn hh, hlinked⟩

end

/-- A function that throws a text away. -/
def discards (symbol text : String) : FunctionDef where
  symbol
  receiver := none
  params := []
  returnType := .unit
  body := [.expr default (.str default text)]
  span := default

def greeting : Program := ⟨[], [discards "hello" "hello", discards "world" "world"]⟩

/-- Without the first text the second one has another number, and its function is linked to the same. -/
theorem world_without_hello :
    let m := (lowerProgram {} .collector greeting).module
    let n := (lowerProgram {} .collector (greeting.withBody 0 [])).module
    m.globals.size = 2 ∧ n.globals.size = 1 ∧ ∃ f h linked, m.function? ⟨1⟩ = some f ∧ n.function? ⟨1⟩ = some h ∧
      f.linked? m = some linked ∧ h.linked? n = some linked := by
  have hd : Declares greeting (Collection.ofProgram {} greeting).tables 1 (discards "world" "world")
      ⟨⟨1⟩, 1, none, [], .unit⟩ := ⟨rfl, by cbv, rfl⟩
  exact ⟨by decide +kernel, by decide +kernel, (bodies_are_lowered_alone {} greeting 0 [] hd (by decide)).2⟩

end BlockForge.Lowering
