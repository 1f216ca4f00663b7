import ModuleLowering.Proofs.FollowingStatements
import ModuleLowering.Proofs.Printing

/-!
# Where an optional chain ends

A chain of members, indices and calls is read link by link. No link asks what comes behind it, so a
chain that goes on is read as it is on its own, and then goes on. The same chain in parentheses is
read as the same tree, since parentheses leave nothing in it, and then goes on from there. So the
tree of a member does not tell whether its object was a whole chain, and the printer puts no
parentheses around the chain.
-/

set_option autoImplicit false

namespace ModuleLowering

namespace Node

mutual

/-- Whether a member, an index or a call along the left spine of an expression is optional. -/
def isOptionalChain : Node → Bool
  | mk _ form =>
    match form with
    | .memberExpression object _ _ isOptional => isOptional || partIsOptionalChain object
    | .callExpression callee _ isOptional => isOptional || partIsOptionalChain callee
    | _ => false

/-- Whether a part is an optional chain in that sense. -/
def partIsOptionalChain : Option Node → Bool
  | none => false
  | some n => isOptionalChain n

end

/-- The member of an object that a name stands for. -/
def named (object : Node) (name : Text) : Node :=
  made (.memberExpression (some object) (some (made (.identifier name))) false false)

end Node

namespace Parser

open Shaped (Builds)

/-! ## Links -/

/-- The parser for the link that a terminal starts, if it starts one. -/
def link? (k : Deeper) (start : Option Position) (object : Shaped Node) :
    Option Terminal → Option (Parser (Shaped Node))
  | some (.punctuator .dot) => some do
    punctuator .dot
    memberOfName start false object
  | some (.punctuator .leftBracket) => some (memberOfIndex k start false object)
  | some .template => some (tagged start object)
  | some (.punctuator .leftParen) => some (call k start false object)
  | some (.punctuator .optionalChain) => some (optionalAccess k start object)
  | _ => none

section

variable {k l : Deeper} {s s' : Option Position} {x y v : Shaped Node} {t : Option Terminal}
  {p : Parser (Shaped Node)} {ts us rest extra : List Token} {fuel fuel' : Nat}

theorem access?_eq (k : Deeper) (s : Option Position) (x : Shaped Node) :
    access? k s true x = do
      match link? k s x (← look) with
      | some p => some <$> p
      | none => return none := by
  unfold access?
  congr
  funext t
  unfold link?
  split <;> simp

/-- A link asks for nothing behind it. -/
theorem exists_link?_follows (s' : Option Position) (h : k.Follows (.more extra) l)
    (hxy : Alike x y) (hp : link? k s x t = some p) :
    ∃ q, link? l s' y t = some q ∧ Follows (.more extra) true 1 Alike p q := by
  unfold link? at hp ⊢
  split at hp
  · cases hp
    refine ⟨_, rfl, .bind (.punctuator _) fun _ _ _ => ?_⟩
    exact .atLeast (.memberOfName s s' hxy false) (by decide)
  · cases hp
    exact ⟨_, rfl, .memberOfIndex h s s' hxy false⟩
  · cases hp
    exact ⟨_, rfl, .tagged s s' hxy⟩
  · cases hp
    exact ⟨_, rfl, .call h s s' hxy false⟩
  · cases hp
    exact ⟨_, rfl, (Follows.optionalAccess h s s' hxy).atLeast (by decide)⟩
  · cases hp

/-- What is read of an access: nothing, or a link. -/
theorem run_access? {o : Option (Shaped Node)} :
    (access? k s true x).run ts = .ok (o, rest) ↔
      match link? k s x (ts.head?.map Token.terminal) with
      | some p => ∃ v, p.run ts = .ok (v, rest) ∧ o = some v
      | none => o = none ∧ rest = ts := by
  rw [access?_eq, run_bind_of_ok (run_look ts)]
  cases link? k s x (ts.head?.map Token.terminal) with
  | none =>
    rw [run_pure_ok]
    exact ⟨fun h => ⟨h.1.symm, h.2.symm⟩, fun h => ⟨h.1.symm, h.2.symm⟩⟩
  | some p =>
    rw [run_map_ok]
    exact ⟨fun ⟨v, hv, ho⟩ => ⟨v, hv, ho.symm⟩, fun ⟨v, hv, ho⟩ => ⟨v, hv, ho.symm⟩⟩

/-- A link is read as it is where the chain ends. -/
theorem exists_run_access? (s' : Option Position) (h : k.Follows (.more extra) l)
    (hrun : (access? k s true x).run ts = .ok (some v, rest)) (hus : Continues extra ts us)
    (hxy : Alike x y) :
    ∃ w rest', (access? l s' true y).run us = .ok (some w, rest') ∧ Alike v w ∧
      Continues extra rest rest' ∧ rest.length < ts.length := by
  rw [run_access?] at hrun
  cases hlink : link? k s x (ts.head?.map Token.terminal) with
  | none =>
    rw [hlink] at hrun
    cases hrun.1
  | some p =>
    rw [hlink] at hrun
    obtain ⟨a, ha, hav⟩ := hrun
    cases hav
    obtain ⟨q, hq, hfollows⟩ := exists_link?_follows s' h hxy hlink
    have hshort : rest.length + 1 ≤ ts.length := hfollows.takes ha
    have hne : ts ≠ [] := by
      rintro rfl
      exact absurd hshort (by simp)
    obtain ⟨w, rest', hw, hvw, hrest⟩ := hfollows.goes hus ha (.inl rfl)
    refine ⟨w, rest', ?_, hvw, hrest, hshort⟩
    rw [run_access?, hus.head hne, hq]
    exact ⟨w, hw, rfl⟩

/-- Without a link nothing is read. -/
theorem eq_of_run_access?_none (hrun : (access? k s true x).run ts = .ok (none, rest)) :
    rest = ts := by
  rw [run_access?] at hrun
  cases hlink : link? k s x (ts.head?.map Token.terminal) with
  | none =>
    rw [hlink] at hrun
    exact hrun.2
  | some p =>
    rw [hlink] at hrun
    obtain ⟨a, -, ha⟩ := hrun
    cases ha

/-- The links of a chain are read as they are where the chain ends, and what goes on behind them is
read from there. -/
theorem exists_run_accesses (s' : Option Position) (h : k.Follows (.more extra) l)
    (hrun : (accesses k s true fuel x).run ts = .ok (v, [])) (hus : Continues extra ts us)
    (hxy : Alike x y) (hfuel' : us.length < fuel') :
    ∃ w fuel'', extra.length < fuel'' ∧ Alike v w ∧
      (accesses l s' true fuel' y).run us = (accesses l s' true fuel'' w).run extra := by
  induction fuel generalizing x y ts us fuel' with
  | zero => cases hrun
  | succ fuel ih =>
    obtain ⟨fuel', rfl⟩ := Nat.exists_eq_add_of_le' (Nat.lt_of_le_of_lt (Nat.zero_le _) hfuel')
    obtain ⟨o, mid, haccess, hrest⟩ := run_bind_ok.1 hrun
    cases o with
    | none =>
      -- The chain ends here, so its tokens do as well.
      obtain rfl := eq_of_run_access?_none haccess
      obtain ⟨rfl, rfl⟩ := run_pure_ok.1 hrest
      cases hus
      exact ⟨y, fuel' + 1, hfuel', hxy, rfl⟩
    | some a =>
      obtain ⟨b, mid', hb, hab, hmid, hshort⟩ := exists_run_access? s' h haccess hus hxy
      have hlong := hus.length_eq
      have hmidLength := hmid.length_eq
      obtain ⟨w, fuel'', hfuel, hvw, hgoes⟩ := ih hrest hmid hab (show mid'.length < fuel' by omega)
      refine ⟨w, fuel'', hfuel, hvw, ?_⟩
      rw [← hgoes]
      exact run_bind_of_ok hb

/-- Where no link starts, the chain has been read. -/
theorem run_accesses_ended (hts : link? k s x (ts.head?.map Token.terminal) = none) :
    (accesses k s true (fuel + 1) x).run ts = .ok (x, ts) := by
  have haccess : (access? k s true x).run ts = .ok (none, ts) := by
    rw [run_access?, hts]
    exact ⟨rfl, rfl⟩
  exact run_bind_of_ok haccess

/-- A dot and the name of a property. -/
structure Property (x : Text) (t u : Token) : Prop where
  dot : t.terminal = .punctuator .dot
  name : u.terminal = .name
  text : u.text = x

/-- What comes behind a chain is read up to `rest` and makes `g` of the chain, whichever it is. -/
def GoesOn (l : Deeper) (s : Option Position) (extra rest : List Token)
    (g : Shaped Node → Shaped Node) : Prop :=
  ∀ w fuel, (accesses l s true (fuel + 2) w).run extra = .ok (g w, rest)

/-- Nothing at the front of some tokens is a link. -/
def NoLink (ts : List Token) : Prop :=
  ∀ (k : Deeper) (s : Option Position) (x : Shaped Node),
    link? k s x (ts.head?.map Token.terminal) = none

theorem goesOn_nothing (hrest : NoLink rest) : GoesOn l s rest rest id :=
  fun w _ => run_accesses_ended (hrest l s w)

/-- The member of an object that a name stands for. -/
def memberAt (s : Option Position) (u : Token) (object : Node) : Node :=
  .mk s (.memberExpression (some object) (some (.mk (some u.start) (.identifier u.text)))
    false false)

theorem goesOn_property {name : Text} {t u : Token} (h : Property name t u) (hrest : NoLink rest) :
    GoesOn l s (t :: u :: rest) rest fun w => w.map (memberAt s u) := by
  intro w fuel
  obtain ⟨terminal, text, offset, start, endOffset, finish, inserted⟩ := t
  obtain ⟨terminal', text', offset', start', endOffset', finish', inserted'⟩ := u
  obtain ⟨rfl, rfl, rfl⟩ := h
  exact run_accesses_ended (hrest l s _)

end

/-! ## What a chain starts with -/

section

variable {k l : Deeper} {s s' : Option Position} {x : Shaped Node} {n : Node} {c : Construction}
  {o : Operand} {ts us mid rest extra : List Token}

/-- What is built is no optional chain. -/
abbrev BuildsNoChain (x : Shaped Node) : Prop := Builds x fun n => n.isOptionalChain = false

theorem buildsNoChain_metaProperty {object expected : Text}
    (hrun : (metaProperty s object expected).run ts = .ok (x, rest)) : BuildsNoChain x := by
  obtain ⟨_, mid, -, hrun⟩ := run_bind_ok.1 hrun
  obtain ⟨name, mid', -, hrun⟩ := run_bind_ok.1 hrun
  obtain ⟨rfl, -⟩ := run_pure_ok.1 hrun
  exact .ite (fun _ => .pure rfl) fun _ => .error

theorem buildsNoChain_construction (hrun : (construction k).run ts = .ok (c, rest)) :
    BuildsNoChain c.node := by
  have hany : ∀ {α : Type} (y : Shaped α), Builds y fun _ => True := fun _ _ _ => trivial
  obtain ⟨start, mid, -, hrun⟩ := run_bind_ok.1 hrun
  obtain ⟨_, mid', -, hrun⟩ := run_bind_ok.1 hrun
  rw [run_bind_of_ok (run_look mid')] at hrun
  split at hrun
  next =>
    obtain ⟨y, mid'', hy, hrun⟩ := run_bind_ok.1 hrun
    obtain ⟨rfl, -⟩ := run_pure_ok.1 hrun
    exact buildsNoChain_metaProperty hy
  next =>
    obtain ⟨callee, mid'', -, hrun⟩ := run_bind_ok.1 hrun
    rw [run_bind_of_ok (run_look mid'')] at hrun
    split at hrun
    next =>
      obtain ⟨args, last, -, hrun⟩ := run_bind_ok.1 hrun
      obtain ⟨rfl, -⟩ := run_pure_ok.1 hrun
      exact (hany _).bind fun _ _ => (hany _).bind fun _ _ => .pure rfl
    next =>
      obtain ⟨rfl, -⟩ := run_pure_ok.1 hrun
      exact (hany _).bind fun _ _ => .pure rfl

theorem buildsNoChain_importCall (hrun : (importCall k s).run ts = .ok (x, rest)) :
    BuildsNoChain x := by
  obtain ⟨_, mid, -, hrun⟩ := run_bind_ok.1 hrun
  obtain ⟨_, mid', -, hrun⟩ := run_bind_ok.1 hrun
  obtain ⟨source, mid'', -, hrun⟩ := run_bind_ok.1 hrun
  obtain ⟨_, last, -, hrun⟩ := run_bind_ok.1 hrun
  obtain ⟨rfl, -⟩ := run_pure_ok.1 hrun
  exact .bind (P := fun _ => True) (fun _ _ => trivial) fun _ _ => .pure rfl

/-- The terminal that comes next starts no `new` and no `import`. -/
def StartsPrimary (ts : List Token) : Prop :=
  ∀ t ∈ ts.head?.map Token.terminal, t ≠ .word .kwNew ∧ t ≠ .word .kwImport

theorem run_leading (hts : StartsPrimary ts) :
    (leading k s).run ts = (do
      let operand ← primary k
      return ((⟨operand.node, true⟩ : Construction), operand)).run ts := by
  unfold leading
  rw [run_bind_of_ok (run_look ts)]
  split
  next h => exact absurd rfl (hts _ h).1
  next h => exact absurd rfl (hts _ h).2
  next => rfl

theorem buildsNoChain_primary (hts : ts.head?.map Token.terminal = some (.word .kwImport))
    (hrun : (primary k).run ts = .ok (o, rest)) : BuildsNoChain o.node := by
  unfold primary at hrun
  rw [run_bind_of_ok (run_place ts), run_bind_of_ok (run_look ts), hts] at hrun
  obtain ⟨_, mid, -, hrun⟩ := run_bind_ok.1 hrun
  obtain ⟨y, mid', hy, hrun⟩ := run_bind_ok.1 hrun
  obtain ⟨rfl, -⟩ := run_pure_ok.1 hrun
  exact buildsNoChain_metaProperty hy

/-- What a chain starts with is a chain itself only if it is in parentheses. -/
theorem leading_cases (hrun : (leading k s).run ts = .ok ((c, o), mid)) :
    o.node = c.node ∧ (BuildsNoChain c.node ∨ c.extensible = true ∧ StartsPrimary ts) := by
  unfold leading at hrun
  rw [run_bind_of_ok (run_look ts)] at hrun
  split at hrun
  next =>
    obtain ⟨made, mid', hmade, hrun⟩ := run_bind_ok.1 hrun
    obtain ⟨hpair, -⟩ := run_pure_ok.1 hrun
    cases hpair
    exact ⟨rfl, .inl (buildsNoChain_construction hmade)⟩
  next hts =>
    rw [run_bind_of_ok (run_lookFurther ts)] at hrun
    split at hrun
    next =>
      obtain ⟨y, mid', hy, hrun⟩ := run_bind_ok.1 hrun
      obtain ⟨hpair, -⟩ := run_pure_ok.1 hrun
      cases hpair
      exact ⟨rfl, .inl (buildsNoChain_importCall hy)⟩
    next =>
      obtain ⟨operand, mid', hoperand, hrun⟩ := run_bind_ok.1 hrun
      obtain ⟨hpair, -⟩ := run_pure_ok.1 hrun
      cases hpair
      exact ⟨rfl, .inl (buildsNoChain_primary hts hoperand)⟩
  next hnew himport =>
    obtain ⟨operand, mid', -, hrun⟩ := run_bind_ok.1 hrun
    obtain ⟨hpair, -⟩ := run_pure_ok.1 hrun
    cases hpair
    refine ⟨rfl, .inr ⟨rfl, fun t ht => ⟨?_, ?_⟩⟩⟩
    · rintro rfl
      exact hnew ht
    · rintro rfl
      exact himport ht

/-- What a chain starts with is read as it is where the chain ends. -/
theorem exists_run_leading (s' : Option Position) (h : k.Follows (.more extra) l)
    (hrun : (leading k s).run ts = .ok ((c, o), mid)) (hus : Continues extra ts us)
    (hmid : mid ≠ [] ∨ StartsPrimary ts) :
    ∃ d o' mid', (leading l s').run us = .ok ((d, o'), mid') ∧ Alike c d ∧
      Continues extra mid mid' := by
  rcases hmid with hmid | hprimary
  · obtain ⟨⟨d, o'⟩, mid', hd, halike, hmid'⟩ :=
      (Follows.leading h s s').goes hus hrun (.inr (.inr hmid))
    exact ⟨d, o', mid', hd, (alike_pair_iff.1 halike).1, hmid'⟩
  · rw [run_leading hprimary] at hrun
    obtain ⟨operand, mid', hoperand, hpure⟩ := run_bind_ok.1 hrun
    obtain ⟨hpair, rfl⟩ := run_pure_ok.1 hpure
    cases hpair
    obtain ⟨o', mid', ho', halike, hmid'⟩ := (Follows.primary h).goes hus hoperand (.inl rfl)
    have hne : ts ≠ [] := by
      rintro rfl
      have htakes := (Follows.primary h).takes hoperand
      simp at htakes
    have hstarts : StartsPrimary us := by
      intro t ht
      rw [hus.head hne] at ht
      exact hprimary t ht
    refine ⟨⟨o'.node, true⟩, o', mid', ?_, ?_, hmid'⟩
    · rw [run_leading hstarts, run_bind_of_ok ho']
      rfl
    · exact Construction.alike_iff.2 ⟨(Operand.alike_iff.1 halike).1, rfl⟩

/-- A chain that goes on behind what it starts with. -/
theorem exists_run_extended {g : Shaped Node → Shaped Node} (hc : c.extensible = true)
    (ho : o.node = c.node) (hgoes : GoesOn k s ts rest g) :
    ∃ o', (extended k s c o).run ts = .ok (o', rest) ∧ o'.node = g c.node := by
  have hfirst := hgoes c.node
  unfold extended
  rw [if_neg (by simp [hc])]
  cases haccess : (access? k s true c.node).run ts with
  | error left =>
    have hrun := hfirst 0
    rw [accesses, StateT.run_bind, haccess] at hrun
    cases hrun
  | ok r =>
    obtain ⟨found, mid⟩ := r
    cases found with
    | none =>
      have hrun := hfirst 0
      rw [accesses, run_bind_of_ok haccess] at hrun
      obtain ⟨hnode, rfl⟩ := run_pure_ok.1 hrun
      exact ⟨o, run_bind_of_ok haccess, ho.trans hnode⟩
    | some longer =>
      have hrun := hfirst mid.length
      rw [accesses, run_bind_of_ok haccess] at hrun
      refine ⟨.plain (g c.node), ?_, rfl⟩
      rw [run_bind_of_ok haccess]
      show (do
        let n ← left
        return .plain (← accesses k s true (n + 1) longer) : Parser Operand).run mid = _
      rw [run_bind_of_ok (run_left mid), run_bind_of_ok hrun]
      rfl

/-- An expression with its links is what it starts with, or has a first link. -/
theorem extended_cases {o' : Operand} (hrun : (extended k s c o).run ts = .ok (o', rest)) :
    o' = o ∧ rest = ts ∨ c.extensible = true ∧ ∃ longer mid fuel,
      (access? k s true c.node).run ts = .ok (some longer, mid) ∧
        (accesses k s true fuel longer).run mid = .ok (o'.node, rest) := by
  unfold extended at hrun
  split at hrun
  next =>
    obtain ⟨rfl, rfl⟩ := run_pure_ok.1 hrun
    exact .inl ⟨rfl, rfl⟩
  next hextensible =>
    obtain ⟨found, mid, haccess, hrest⟩ := run_bind_ok.1 hrun
    cases found with
    | none =>
      obtain rfl := eq_of_run_access?_none haccess
      obtain ⟨rfl, rfl⟩ := run_pure_ok.1 hrest
      exact .inl ⟨rfl, rfl⟩
    | some longer =>
      obtain ⟨fuel, mid', hleft, hrest⟩ := run_bind_ok.1 hrest
      cases hleft
      obtain ⟨v, mid'', hv, hrest⟩ := run_bind_ok.1 hrest
      obtain ⟨rfl, rfl⟩ := run_pure_ok.1 hrest
      exact .inr ⟨by simpa using hextensible, longer, mid, _, haccess, hv⟩

/-- A chain that starts with a chain in parentheses has no links of its own. -/
theorem exists_run_alone {g : Shaped Node → Shaped Node} (h : k.Follows (.more extra) l)
    (hleading : (leading k s).run ts = .ok ((c, o), [])) (hnode : c.node = .ok n)
    (hchain : n.isOptionalChain = true) (hus : Continues extra ts us)
    (hgoes : GoesOn l s' extra rest g) :
    ∃ d a mid o' n', (leading l s').run us = .ok ((d, a), mid) ∧
      (extended l s' d a).run mid = .ok (o', rest) ∧ o'.node = g (.ok n') ∧ Alike n n' := by
  have hprimary : c.extensible = true ∧ StartsPrimary ts := by
    refine (leading_cases hleading).2.resolve_left fun hnone => ?_
    rw [hnone n hnode] at hchain
    cases hchain
  obtain ⟨d, a, mid, hd, halike, hmid⟩ := exists_run_leading s' h hleading hus (.inr hprimary.2)
  cases hmid
  obtain ⟨hnodes, hextensible⟩ := Construction.alike_iff.1 halike
  rw [hnode] at hnodes
  obtain ⟨n', hn', hnn'⟩ := hnodes.exists_ok
  obtain ⟨o', ho', hnode'⟩ :=
    exists_run_extended (hextensible.symm.trans hprimary.1) (leading_cases hd).1 hgoes
  exact ⟨d, a, extra, o', n', hd, ho', by rw [hnode', hn'], hnn'⟩

/-- A chain with links goes on behind the last of them. -/
theorem exists_run_links {g : Shaped Node → Shaped Node} {longer : Shaped Node} {fuel : Nat}
    {mid' : List Token} (h : k.Follows (.more extra) l)
    (hleading : (leading k s).run ts = .ok ((c, o), mid)) (hc : c.extensible = true)
    (haccess : (access? k s true c.node).run mid = .ok (some longer, mid'))
    (hlinks : (accesses k s true fuel longer).run mid' = .ok (.ok n, []))
    (hus : Continues extra ts us) (hne : extra ≠ []) (hgoes : GoesOn l s' extra rest g) :
    ∃ d a mid o' n', (leading l s').run us = .ok ((d, a), mid) ∧
      (extended l s' d a).run mid = .ok (o', rest) ∧ o'.node = g (.ok n') ∧ Alike n n' := by
  have hmid : mid ≠ [] := by
    rintro rfl
    cases haccess
  obtain ⟨d, a, vs, hd, halike, hvs⟩ := exists_run_leading s' h hleading hus (.inl hmid)
  obtain ⟨hnodes, hextensible⟩ := Construction.alike_iff.1 halike
  obtain ⟨b, ws, hb, hab, hws, -⟩ := exists_run_access? s' h haccess hvs hnodes
  obtain ⟨w, fuel'', hfuel, hnw, hrun⟩ :=
    exists_run_accesses s' h hlinks hws hab (Nat.lt_succ_self ws.length)
  obtain ⟨n', rfl, hnn'⟩ := hnw.exists_ok
  have hlength : extra.length ≠ 0 := fun hnil => hne (List.eq_nil_of_length_eq_zero hnil)
  obtain ⟨fuel', rfl⟩ := Nat.exists_eq_add_of_le' (show 2 ≤ fuel'' by omega)
  rw [hgoes] at hrun
  refine ⟨d, a, vs, .plain (g (.ok n')), n', hd, ?_, rfl, hnn'⟩
  unfold extended
  rw [if_neg (by simp [← hextensible, hc]), run_bind_of_ok hb]
  show (do
    let n ← left
    return .plain (← accesses l s' true (n + 1) b) : Parser Operand).run ws = _
  rw [run_bind_of_ok (run_left ws), run_bind_of_ok hrun]
  rfl

/-- An optional chain is read as it is on its own wherever it goes on. -/
theorem exists_run_leftHandSide {g : Shaped Node → Shaped Node} (h : k.Follows (.more extra) l)
    (hrun : (leftHandSide k).run ts = .ok (o, [])) (hn : o.node = .ok n)
    (hchain : n.isOptionalChain = true) (hus : Continues extra ts us) (hne : extra ≠ [])
    (hgoes : GoesOn l (us.head?.map Token.start) extra rest g) :
    ∃ o' n', (leftHandSide l).run us = .ok (o', rest) ∧ o'.node = g (.ok n') ∧ Alike n n' := by
  obtain ⟨start, ts', hplace, hrun⟩ := run_bind_ok.1 hrun
  cases hplace
  obtain ⟨⟨c, alone⟩, mid, hleading, hextended⟩ := run_bind_ok.1 hrun
  have hextended :
      (extended k (ts.head?.map Token.start) c alone).run mid = .ok (o, []) := hextended
  have hfound : ∃ d a mid o' n',
      (leading l (us.head?.map Token.start)).run us = .ok ((d, a), mid) ∧
        (extended l (us.head?.map Token.start) d a).run mid = .ok (o', rest) ∧
        o'.node = g (.ok n') ∧ Alike n n' := by
    rcases extended_cases hextended with ⟨rfl, rfl⟩ | ⟨hc, longer, mid', fuel, haccess, hlinks⟩
    · have hnode := (leading_cases hleading).1.symm.trans hn
      exact exists_run_alone h hleading hnode hchain hus hgoes
    · rw [hn] at hlinks
      exact exists_run_links h hleading hc haccess hlinks hus hne hgoes
  obtain ⟨d, a, vs, o', n', hd, ho', hnode, hnn'⟩ := hfound
  refine ⟨o', n', ?_, hnode, hnn'⟩
  unfold leftHandSide
  rw [run_bind_of_ok (run_place us), run_bind_of_ok hd]
  exact ho'

end

/-! ## An operand without operators -/

/-- What an expression without operators starts with. -/
def startsOperand (t : Terminal) : Bool :=
  t.isName ||
    match t with
    | .number | .string | .template | .regex | .objectBrace => true
    | .punctuator p => p = .leftParen || p = .leftBracket
    | .word w =>
      [Word.kwTrue, .kwFalse, .kwNull, .kwThis, .kwSuper, .kwImport, .kwNew, .kwFunction, .kwClass,
        .kwAsync].contains w
    | _ => false

/-- The front of an expression without operators: behind `async` there is a function. -/
def StartsOperand (ts : List Token) : Prop :=
  ∃ t, ts.head?.map Token.terminal = some t ∧ startsOperand t = true ∧
    (t = .word .kwAsync → ts.tail.head?.map Token.terminal = some (.word .kwFunction))

section

variable {k : Deeper} {s : Option Position} {o : Operand} {ts rest : List Token}

theorem startsOperand_of_head {t : Terminal} (hts : ts.head?.map Token.terminal = some t)
    (ht : startsOperand t = true) (hasync : t ≠ .word .kwAsync) : StartsOperand ts :=
  ⟨t, hts, ht, fun h => absurd h hasync⟩

theorem startsOperand_functionExpression {x : Shaped Node}
    (hts : ts.head?.map Token.terminal = some (.word .kwAsync))
    (hrun : (functionExpression k).run ts = .ok (x, rest)) : StartsOperand ts := by
  refine ⟨_, hts, by decide, fun _ => ?_⟩
  cases ts with
  | nil => cases hts
  | cons t ts =>
    obtain ⟨terminal, text, offset, start, endOffset, finish, inserted⟩ := t
    obtain rfl : terminal = .word .kwAsync := Option.some.inj hts
    obtain ⟨_, us, hplace, hrun⟩ := run_bind_ok.1 hrun
    cases hplace
    obtain ⟨isAsync, us, htaken, hrun⟩ := run_bind_ok.1 hrun
    cases htaken
    obtain ⟨_, us, hword, -⟩ := run_bind_ok.1 hrun
    obtain ⟨u, hu, -⟩ := run_map_ok.1 hword
    obtain ⟨rfl, hterminal⟩ := run_takeIf_ok.1 hu
    exact congrArg some (of_decide_eq_true hterminal)

theorem startsOperand_primary (hrun : (primary k).run ts = .ok (o, rest)) : StartsOperand ts := by
  unfold primary at hrun
  rw [run_bind_of_ok (run_place ts), run_bind_of_ok (run_look ts)] at hrun
  split at hrun
  case h_15 hts =>
    obtain ⟨x, mid, hx, -⟩ := run_bind_ok.1 hrun
    exact startsOperand_functionExpression hts hx
  case h_17 =>
    obtain ⟨name, mid, hname, -⟩ := run_bind_ok.1 hrun
    obtain ⟨t, mid', ht, -⟩ := run_bind_ok.1 hname
    obtain ⟨rfl, hisName⟩ := run_takeIf_ok.1 ht
    refine startsOperand_of_head rfl (Bool.or_eq_true_iff.2 (.inl hisName)) fun hasync => ?_
    rw [hasync] at hisName
    cases hisName
  all_goals exact startsOperand_of_head ‹_› (by decide) (by decide)

theorem startsOperand_leftHandSide (hrun : (leftHandSide k).run ts = .ok (o, rest)) :
    StartsOperand ts := by
  unfold leftHandSide leading at hrun
  rw [run_bind_of_ok (run_place ts)] at hrun
  obtain ⟨⟨c, alone⟩, mid, hleading, -⟩ := run_bind_ok.1 hrun
  rw [run_bind_of_ok (run_look ts)] at hleading
  split at hleading
  next hts => exact startsOperand_of_head hts (by decide) (by decide)
  next hts => exact startsOperand_of_head hts (by decide) (by decide)
  next =>
    obtain ⟨operand, mid', hoperand, -⟩ := run_bind_ok.1 hleading
    exact startsOperand_primary hoperand

/-- Nothing at the front of some tokens is taken for another construct than an operand. -/
structure StartsPlain (ts : List Token) : Prop where
  unary : startsUnary (ts.head?.map Token.terminal) = false
  update : ((ts.head?.map Token.terminal).map Terminal.isUpdateOperator).getD false = false
  yield : ts.head?.map Token.terminal ≠ some (.word .kwYield)
  closed : ts.head?.map Token.terminal ≠ some (.punctuator .rightParen)
  spread : ts.head?.map Token.terminal ≠ some (.punctuator .ellipsis)
  async : startsAsyncArrow (ts.head?.map Token.terminal) (ts.tail.head?.map Token.terminal) = false

theorem StartsOperand.plain (h : StartsOperand ts) : StartsPlain ts := by
  obtain ⟨t, hts, ht, hasync⟩ := h
  have hplain : startsUnary (some t) = false ∧ t.isUpdateOperator = false ∧
      t ≠ .word .kwYield ∧ t ≠ .punctuator .rightParen ∧ t ≠ .punctuator .ellipsis := by
    revert ht
    clear hts hasync
    cases t with
    | word w => cases w <;> decide
    | punctuator p => cases p <;> decide
    | _ => decide
  obtain ⟨hunary, hupdate, hyield, hclosed, hspread⟩ := hplain
  constructor
  case async =>
    rw [hts]
    by_cases h : t = .word .kwAsync
    · rw [h, hasync h]
      decide
    · simp [startsAsyncArrow, h]
  all_goals
    rw [hts]
    simpa

/-! ## From an operand to an expression -/

/-- Terminals that go on with an operand behind its links. -/
def joinsOperand (t : Terminal) : Bool :=
  t.isUpdateOperator || t.isAssignmentOperator ||
    [Punctuator.power, .question, .arrow, .comma].any (t = .punctuator ·) ||
    (List.range loosestLevel).any fun n => (levelOperators (n + 1)).contains t

/-- No operator comes next. -/
def NoOperator (ts : List Token) : Prop :=
  ∀ t ∈ ts.head?.map Token.terminal, joinsOperand t = false

theorem NoOperator.look {test : Terminal → Bool} (h : NoOperator ts)
    (htest : ∀ t, test t = true → joinsOperand t = true) :
    ((ts.head?.map Token.terminal).map test).getD false = false := by
  cases hts : ts.head?.map Token.terminal with
  | none => rfl
  | some t =>
    refine Bool.eq_false_iff.2 fun ht => ?_
    have hjoins := htest t ht
    rw [h t hts] at hjoins
    cases hjoins

theorem NoOperator.ne {t : Terminal} (h : NoOperator ts) (ht : joinsOperand t = true) :
    ts.head?.map Token.terminal ≠ some t := by
  intro hts
  rw [h t hts] at ht
  cases ht

theorem run_update (hrun : (leftHandSide k).run ts = .ok (o, rest)) (hrest : NoOperator rest) :
    (update k).run ts = .ok (o, rest) := by
  have hfirst := (startsOperand_leftHandSide hrun).plain.update
  have hlast : ((rest.head?.map Token.terminal).map Terminal.isUpdateOperator).getD false = false :=
    hrest.look fun t ht => by simp [joinsOperand, ht]
  unfold update
  rw [run_bind_of_ok (run_place ts), run_bind_of_ok (run_look ts),
    if_neg (Bool.eq_false_iff.1 hfirst), run_bind_of_ok hrun, run_bind_of_ok (run_look rest),
    if_neg (Bool.eq_false_iff.1 hlast)]
  rfl

theorem run_exponent (hrun : (leftHandSide k).run ts = .ok (o, rest)) (hrest : NoOperator rest) :
    (exponent k).run ts = .ok (o, rest) := by
  have hfirst := (startsOperand_leftHandSide hrun).plain.unary
  unfold exponent
  rw [run_bind_of_ok (run_place ts), run_bind_of_ok (run_look ts),
    if_neg (Bool.eq_false_iff.1 hfirst), run_bind_of_ok (run_update hrun hrest),
    run_bind_of_ok (run_look rest),
    if_neg (hrest.ne (by decide))]
  rfl

theorem run_level (hrun : (leftHandSide k).run ts = .ok (o, rest)) (hrest : NoOperator rest)
    {n : Nat} (hn : n ≤ loosestLevel) : (level k n).run ts = .ok (o, rest) := by
  induction n with
  | zero => exact run_exponent hrun hrest
  | succ n ih =>
    have hoperators : ((rest.head?.map Token.terminal).map fun t =>
        (levelOperators (n + 1)).contains t).getD false = false := by
      refine hrest.look fun t ht => ?_
      rw [joinsOperand, Bool.or_eq_true]
      exact .inr (List.any_eq_true.2 ⟨n, List.mem_range.2 hn, ht⟩)
    unfold level
    rw [run_bind_of_ok (run_place ts), run_bind_of_ok (ih (Nat.le_of_succ_le hn)),
      run_bind_of_ok (run_left rest)]
    unfold moreOperands
    rw [run_bind_of_ok (run_look rest), if_neg (Bool.eq_false_iff.1 hoperators)]
    rfl

theorem run_conditional (hrun : (leftHandSide k).run ts = .ok (o, rest)) (hrest : NoOperator rest) :
    (conditional k).run ts = .ok (o, rest) := by
  unfold conditional
  rw [run_bind_of_ok (run_place ts), run_bind_of_ok (run_level hrun hrest (Nat.le_refl _)),
    run_bind_of_ok (run_taken_of_ne (hrest.ne (by decide)))]
  rfl

/-- Without operators an operand is an expression. -/
theorem run_assignment (hrun : (leftHandSide k).run ts = .ok (o, rest)) (hrest : NoOperator rest) :
    (assignment k).run ts = .ok (o.node, rest) := by
  have hplain := (startsOperand_leftHandSide hrun).plain
  have hassign : ∀ t, rest.head?.map Token.terminal = some t → t.isAssignmentOperator = false := by
    intro t ht
    have hjoins := hrest t ht
    simp only [joinsOperand, Bool.or_eq_false_iff] at hjoins
    exact hjoins.1.1.2
  unfold assignment
  rw [run_bind_of_ok (run_place ts), run_bind_of_ok (run_look ts), if_neg hplain.yield,
    run_bind_of_ok (run_lookFurther ts), if_neg (Bool.eq_false_iff.1 hplain.async),
    run_bind_of_ok (run_conditional hrun hrest), run_bind_of_ok (run_look rest)]
  split
  next harrow _ => exact absurd harrow (hrest.ne (by decide))
  next t ht _ =>
    rw [if_neg (Bool.eq_false_iff.1 (hassign t ht))]
    rfl
  next => rfl

theorem run_expression (hrun : (leftHandSide k).run ts = .ok (o, rest)) (hrest : NoOperator rest) :
    (expression k).run ts = .ok (o.node, rest) := by
  have hparts : (parts (assignment k)).run ts = .ok ([o.node], rest) := by
    unfold parts
    rw [run_bind_of_ok (run_assignment hrun hrest), run_bind_of_ok (run_left rest)]
    have hmore : (moreParts (assignment k) (rest.length + 1)).run rest = .ok ([], rest) := by
      unfold moreParts
      rw [run_bind_of_ok (run_taken_of_ne (hrest.ne (by decide)))]
      rfl
    rw [run_bind_of_ok hmore]
    rfl
  unfold expression commaExpression
  rw [run_bind_of_ok (run_place ts), run_bind_of_ok hparts]
  rfl

end

/-! ## Parentheses -/

section

variable {k : Deeper} {o : Operand} {n : Node} {p : Token} {ts us mid rest : List Token}

/-- Parentheses leave nothing in the tree. -/
theorem exists_run_parenthesized {q : Token} (hp : p.terminal = .punctuator .leftParen)
    (hq : q.terminal = .punctuator .rightParen) (hus : StartsPlain us)
    (hrun : k.assignment.run us = .ok (.ok n, q :: rest)) :
    ∃ o', (parenthesized k).run (p :: us) = .ok (o', rest) ∧ o'.node = .ok n := by
  have hopen : (punctuator .leftParen).run (p :: us) = .ok ((), us) := by
    have htake : (take (.punctuator .leftParen)).run (p :: us) = .ok (p, us) :=
      run_takeIf_ok.2 ⟨rfl, by simp [hp]⟩
    exact run_map_ok.2 ⟨p, htake, rfl⟩
  have hclose : (taken (.punctuator .rightParen)).run (q :: rest) = .ok (true, rest) := by
    have htake : (take (.punctuator .rightParen)).run (q :: rest) = .ok (q, rest) :=
      run_takeIf_ok.2 ⟨rfl, by simp [hq]⟩
    have hdiscard : (discard (take (.punctuator .rightParen))).run (q :: rest) = .ok ((), rest) :=
      run_map_ok.2 ⟨q, htake, rfl⟩
    unfold taken
    rw [run_bind_of_ok (run_look _), if_pos (by simp [hq]), run_bind_of_ok hdiscard]
    rfl
  have hmore : (moreInParentheses k ((q :: rest).length + 1)).run (q :: rest) =
      .ok (⟨[], none⟩, rest) := by
    unfold moreInParentheses
    rw [run_bind_of_ok hclose]
    rfl
  refine ⟨⟨.ok n, some (.ok n >>= Node.asParameters)⟩, ?_, rfl⟩
  unfold parenthesized
  rw [run_bind_of_ok (run_place _), run_bind_of_ok hopen,
    run_bind_of_ok (run_taken_of_ne hus.closed)]
  refine (run_bind_of_ok (run_taken_of_ne hus.spread)).trans ?_
  refine (run_bind_of_ok (run_place us)).trans ?_
  rw [run_bind_of_ok hrun, run_bind_of_ok (run_left _), run_bind_of_ok hmore]
  rfl

/-- An expression in parentheses goes on as a chain. -/
theorem exists_run_leftHandSide_parenthesized {g : Shaped Node → Shaped Node}
    (hp : p.terminal = .punctuator .leftParen)
    (hrun : (parenthesized k).run (p :: us) = .ok (o, mid))
    (hgoes : GoesOn k (some p.start) mid rest g) :
    ∃ o', (leftHandSide k).run (p :: us) = .ok (o', rest) ∧ o'.node = g o.node := by
  have hts : (p :: us).head?.map Token.terminal = some (.punctuator .leftParen) :=
    congrArg some hp
  have hprimary : (primary k).run (p :: us) = .ok (o, mid) := by
    unfold primary
    rw [run_bind_of_ok (run_place _), run_bind_of_ok (run_look _), hts]
    exact hrun
  have hstarts : StartsPrimary (p :: us) := by
    intro t ht
    rw [hts] at ht
    cases ht
    exact ⟨by decide, by decide⟩
  have hleading : (leading k (some p.start)).run (p :: us) = .ok ((⟨o.node, true⟩, o), mid) := by
    rw [run_leading hstarts, run_bind_of_ok hprimary]
    rfl
  obtain ⟨o', ho', hnode⟩ := exists_run_extended (c := ⟨o.node, true⟩) (o := o) rfl rfl hgoes
  refine ⟨o', ?_, hnode⟩
  unfold leftHandSide
  rw [run_bind_of_ok (run_place _)]
  exact (run_bind_of_ok hleading).trans ho'

end

/-! ## The member of a chain -/

section

variable {k : Deeper} {o : Operand} {n n' : Node} {name : Text} {s : Option Position}
  {p q t u t' u' : Token} {ts us vs rest rest' : List Token} {fuel m : Nat}

theorem noLink_terminator (h : rest.head?.map Token.terminal = some .terminator) : NoLink rest := by
  intro k s x
  rw [h]
  rfl

theorem noOperator_terminator (h : rest.head?.map Token.terminal = some .terminator) :
    NoOperator rest := by
  intro t ht
  rw [h] at ht
  cases ht
  decide

theorem alike_memberAt (h : Property name t u) (hn : Alike n n') :
    Alike (n.named name) (memberAt s u n') := by
  have hobject : bare n = bare n' := hn
  unfold Node.named memberAt Node.made
  rw [h.text]
  simp [Alike, hobject]

/-- The name of a property behind an optional chain makes a member of the chain. -/
theorem exists_run_expression_chain (hfuel : fuel ≤ m)
    (hrun : (leftHandSide (.within fuel)).run ts = .ok (o, [])) (hn : o.node = .ok n)
    (hchain : n.isOptionalChain = true) (hproperty : Property name t u)
    (hrest : rest.head?.map Token.terminal = some .terminator)
    (hus : Continues (t :: u :: rest) ts us) :
    ∃ a, (expression (.within m)).run us = .ok (.ok a, rest) ∧ Alike (n.named name) a := by
  have hinert : Inert (t :: u :: rest) := by
    rintro _ ⟨⟩
    rw [hproperty.dot]
    rfl
  have hdeeper := Deeper.follows_within (.more (t :: u :: rest)) hinert hfuel
  have hgoes := goesOn_property (l := .within m) (s := us.head?.map Token.start) hproperty
    (noLink_terminator hrest)
  obtain ⟨o', n', ho', hnode, hnn'⟩ :=
    exists_run_leftHandSide hdeeper hrun hn hchain hus (List.cons_ne_nil _ _) hgoes
  refine ⟨memberAt (us.head?.map Token.start) u n', ?_, alike_memberAt hproperty hnn'⟩
  rw [run_expression ho' (noOperator_terminator hrest), hnode]
  rfl

/-- The name of a property behind an optional chain in parentheses makes a member of the chain as
well: where the chain ended is lost. -/
theorem exists_run_expression_parenthesized (hfuel : fuel < m)
    (hrun : (leftHandSide (.within fuel)).run ts = .ok (o, [])) (hn : o.node = .ok n)
    (hchain : n.isOptionalChain = true) (hproperty : Property name t u)
    (hrest : rest.head?.map Token.terminal = some .terminator)
    (hp : p.terminal = .punctuator .leftParen) (hq : q.terminal = .punctuator .rightParen)
    (hus : Continues (q :: t :: u :: rest) ts us) :
    ∃ a, (expression (.within m)).run (p :: us) = .ok (.ok a, rest) ∧ Alike (n.named name) a := by
  obtain ⟨m, rfl⟩ := Nat.exists_eq_add_of_le' (Nat.lt_of_le_of_lt (Nat.zero_le _) hfuel)
  have hinert : Inert (q :: t :: u :: rest) := by
    rintro _ ⟨⟩
    rw [hq]
    rfl
  have hdeeper := Deeper.follows_within (.more (q :: t :: u :: rest)) hinert
    (Nat.le_of_lt_succ hfuel : fuel ≤ m)
  have hnolink : NoLink (q :: t :: u :: rest) := by
    intro k s x
    show link? k s x (some q.terminal) = none
    rw [hq]
    rfl
  have hnooperator : NoOperator (q :: t :: u :: rest) := by
    rintro _ ⟨⟩
    rw [hq]
    decide
  obtain ⟨inner, n', hinner, hnode, hnn'⟩ := exists_run_leftHandSide hdeeper hrun hn hchain hus
    (List.cons_ne_nil _ _) (goesOn_nothing hnolink)
  have hassignment : (assignment (.within m)).run us = .ok (.ok n', q :: t :: u :: rest) := by
    rw [run_assignment hinner hnooperator, hnode]
    rfl
  obtain ⟨whole, hwhole, hnode⟩ := exists_run_parenthesized (k := .within (m + 1)) hp hq
    (startsOperand_leftHandSide hinner).plain hassignment
  obtain ⟨o', ho', hmember⟩ := exists_run_leftHandSide_parenthesized hp hwhole
    (goesOn_property hproperty (noLink_terminator hrest))
  refine ⟨memberAt (some p.start) u n', ?_, alike_memberAt hproperty hnn'⟩
  rw [run_expression ho' (noOperator_terminator hrest), hmember, hnode]
  rfl

/-- Parentheses around an optional chain change nothing in the tree of its member. -/
theorem alike_chain_parenthesized (hfuel : fuel < m)
    (hrun : (leftHandSide (.within fuel)).run ts = .ok (o, [])) (hn : o.node = .ok n)
    (hchain : n.isOptionalChain = true) (hproperty : Property name t u)
    (hproperty' : Property name t' u') (hrest : rest.head?.map Token.terminal = some .terminator)
    (hrest' : rest'.head?.map Token.terminal = some .terminator)
    (hp : p.terminal = .punctuator .leftParen) (hq : q.terminal = .punctuator .rightParen)
    (hvs : Continues (t :: u :: rest) ts vs) (hus : Continues (q :: t' :: u' :: rest') ts us) :
    ∃ a b, (expression (.within m)).run vs = .ok (.ok a, rest) ∧
      (expression (.within m)).run (p :: us) = .ok (.ok b, rest') ∧ Alike a b := by
  obtain ⟨a, ha, halike⟩ :=
    exists_run_expression_chain (Nat.le_of_lt hfuel) hrun hn hchain hproperty hrest hvs
  obtain ⟨b, hb, halike'⟩ :=
    exists_run_expression_parenthesized hfuel hrun hn hchain hproperty' hrest' hp hq hus
  exact ⟨a, b, ha, hb, halike.symm.trans halike'⟩

end

end Parser

/-! ## The text of the member -/

namespace Node

open Printing (bind_eq_ok)

variable {n : Node} {c : Setting} {t : Text}

/-- An optional chain binds as tightly as a call. -/
theorem exists_precedence_chain (h : n.isOptionalChain = true) :
    ∃ level, n.precedence = .ok level ∧ Precedence.call ≤ level := by
  obtain ⟨loc, form⟩ := n
  cases form
  case memberExpression => exact ⟨Precedence.member, rfl, by decide⟩
  case callExpression => exact ⟨Precedence.call, rfl, Nat.le_refl _⟩
  all_goals cases h

/-- The printer writes no parentheses around a chain that goes on. -/
theorem bare_named (name : Text) (h : n.isOptionalChain = true) (ht : n.printed.bare c = .ok t) :
    (n.named name).printed.bare c = .ok (t ++ "." ++ name) := by
  obtain ⟨level, hlevel, hcall⟩ := exists_precedence_chain h
  have hplain : Print.isIn n = false ∧ Print.isWhole n = false := by
    obtain ⟨loc, form⟩ := n
    cases form
    case memberExpression | callExpression => exact ⟨rfl, rfl⟩
    all_goals cases h
  have htext : Print.expression c Precedence.call (some n.printed) = .ok t := by
    refine bind_eq_ok.2 ⟨t, ht, bind_eq_ok.2 ⟨level, by rwa [node_printed], ?_⟩⟩
    rw [node_printed, hplain.1, Bool.and_false, Bool.or_false, if_neg (by simpa using hcall)]
    rfl
  rw [printed_eq]
  show Print.member c (some n.printed) _ false false = _
  refine bind_eq_ok.2 ⟨t, htext, ?_⟩
  simp only [Option.map_some, Option.getD_some, node_printed, hplain.2, Bool.false_and]
  rfl

end Node

end ModuleLowering
