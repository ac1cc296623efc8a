import DocQuery.Proofs.Predicate.Lexemes

namespace DocQuery

/-! # The grammar of conditions

    expression = term { OR term }
    term       = operand { AND operand }
    operand    = word | "(" expression ")"

What the productions give is left open: trees, truth values, or anything else in which a word has a
value and values can be joined. A parser reads the lexemes from left to right with a stack of the
groups that are open. It accepts what the grammar derives, and gives the value that is derived; so
the grammar is unambiguous.

* `Read.run`: what the parser has taken in so far is read as its stack says.
* `parse_eq_some_iff`: the parser accepts what the grammar derives, with the value that is derived.
-/

namespace Grammar

/-- Values that the productions can give. -/
structure Semantics (β : Type) where
  word : String → β
  join : Connective → List β → β
  join_singleton : ∀ c v, join c [v] = v

inductive Nonterminal where
  | operand
  | chain (c : Connective)

namespace Nonterminal

/-- What stands between the connectives of a chain; AND binds tighter than OR. -/
def item : Connective → Nonterminal
  | .and => operand
  | .or => chain .and

abbrev expression : Nonterminal := chain .or

end Nonterminal

open Nonterminal Lexeme

variable {β : Type} {S : Semantics β} {c : Connective} {ls more : List Lexeme}
  {v w : β} {vs ws : List β}

mutual

/-- The grammar derives the lexemes, with the value. -/
inductive Derives (S : Semantics β) : Nonterminal → List Lexeme → β → Prop where
  | word (text : String) : Derives S operand [word text] (S.word text)
  | group {ls : List Lexeme} {v : β} (inner : Derives S expression ls v) :
    Derives S operand (opening :: ls ++ [closing]) v
  | chain {c : Connective} {ls : List Lexeme} {vs : List β} (items : Items S c ls vs) :
    Derives S (chain c) ls (S.join c vs)

/-- One or more items with the connective between each two. -/
inductive Items (S : Semantics β) : Connective → List Lexeme → List β → Prop where
  | last {c : Connective} {ls : List Lexeme} {v : β} (only : Derives S (item c) ls v) : Items S c ls [v]
  | more {c : Connective} {ls more : List Lexeme} {v : β} {vs : List β}
    (first : Derives S (item c) ls v) (rest : Items S c more vs) :
    Items S c (ls ++ connective c :: more) (v :: vs)

end

/-- An item is a chain of its own. -/
theorem Derives.chain_of_item (h : Derives S (item c) ls v) : Derives S (.chain c) ls v := by
  have hchain := Derives.chain (.last h)
  rwa [S.join_singleton] at hchain

/-! ## Parser -/

/-- A group that is open: its terms before the last OR, the operands of the term that is being read,
and the operand behind the last connective. -/
structure Frame (β : Type) where
  terms : List β := []
  operands : List β := []
  operand : Option β := none

/-- The value of a group that ends with the operand. -/
def closed (S : Semantics β) (terms operands : List β) (v : β) : β :=
  S.join .or (terms ++ [S.join .and (operands ++ [v])])

/-- The open groups once one more lexeme is read, the innermost group first. -/
def shift (S : Semantics β) : List (Frame β) → Lexeme → Option (List (Frame β))
  | ⟨terms, operands, none⟩ :: outer, word text =>
    some (⟨terms, operands, some (S.word text)⟩ :: outer)
  | ⟨terms, operands, none⟩ :: outer, opening => some ({} :: ⟨terms, operands, none⟩ :: outer)
  | ⟨terms, operands, some v⟩ :: outer, connective .and =>
    some (⟨terms, operands ++ [v], none⟩ :: outer)
  | ⟨terms, operands, some v⟩ :: outer, connective .or =>
    some (⟨terms ++ [S.join .and (operands ++ [v])], [], none⟩ :: outer)
  | ⟨terms, operands, some v⟩ :: ⟨terms', operands', none⟩ :: outer, closing =>
    some (⟨terms', operands', some (closed S terms operands v)⟩ :: outer)
  | _, _ => none

/-- The value when all groups but the outermost are closed. -/
def finish (S : Semantics β) : List (Frame β) → Option β
  | [⟨terms, operands, some v⟩] => some (closed S terms operands v)
  | _ => none

/-- The value of an expression. -/
def parse (S : Semantics β) (ls : List Lexeme) : Option β :=
  (ls.foldlM (shift S) [{}]).bind (finish S)

/-! ## What is derived is parsed -/

/-- Reading the lexemes behind a connective extends the innermost group by the items. -/
def ShiftsItems (S : Semantics β) : Connective → List Lexeme → List β → Prop
  | .and, ls, vs => ∃ operands v, vs = operands ++ [v] ∧ ∀ terms before outer,
      ls.foldlM (shift S) (⟨terms, before, none⟩ :: outer) =
        some (⟨terms, before ++ operands, some v⟩ :: outer)
  | .or, ls, vs => ∃ terms operands v, vs = terms ++ [S.join .and (operands ++ [v])] ∧
      ∀ before outer, ls.foldlM (shift S) (⟨before, [], none⟩ :: outer) =
        some (⟨before ++ terms, operands, some v⟩ :: outer)

/-- The same for what a nonterminal derives. -/
def Shifts (S : Semantics β) : Nonterminal → List Lexeme → β → Prop
  | .operand, ls, v => ∀ terms operands outer,
      ls.foldlM (shift S) (⟨terms, operands, none⟩ :: outer) =
        some (⟨terms, operands, some v⟩ :: outer)
  | .chain c, ls, v => ∃ vs, v = S.join c vs ∧ ShiftsItems S c ls vs

theorem Shifts.last (h : Shifts S (item c) ls v) : ShiftsItems S c ls [v] := by
  cases c with
  | and => exact ⟨[], v, rfl, fun terms before outer => by rw [h, List.append_nil]⟩
  | or =>
    rcases h with ⟨vs, rfl, operands, last, rfl, hrun⟩
    exact ⟨[], operands, last, rfl, fun before outer => by rw [hrun, List.append_nil, List.nil_append]⟩

theorem Shifts.cons (h : Shifts S (item c) ls v) (hmore : ShiftsItems S c more vs) :
    ShiftsItems S c (ls ++ connective c :: more) (v :: vs) := by
  -- AND adds to the operands of the open term, OR closes the term
  cases c with
  | and =>
    rcases hmore with ⟨operands, last, rfl, hrun⟩
    refine ⟨v :: operands, last, rfl, fun terms before outer => ?_⟩
    rw [List.foldlM_append, h]
    simp [shift, hrun]
  | or =>
    rcases h with ⟨factors, rfl, operands', last', rfl, hfirst⟩
    rcases hmore with ⟨terms, operands, last, rfl, hrun⟩
    refine ⟨S.join .and (operands' ++ [last']) :: terms, operands, last, rfl, fun before outer => ?_⟩
    rw [List.foldlM_append, hfirst]
    simp [shift, hrun]

/-- A group in parentheses becomes an operand of the group around it. -/
theorem Shifts.group (h : Shifts S expression ls v) :
    Shifts S operand (opening :: ls ++ [closing]) v := by
  rcases h with ⟨vs, rfl, terms, operands, last, rfl, hrun⟩
  intro terms' operands' outer
  have hinner := hrun [] (⟨terms', operands', none⟩ :: outer)
  rw [List.cons_append, List.foldlM_cons]
  simp [shift, hinner, closed]

mutual

/-- The parser reads what is derived into the innermost group. -/
theorem Derives.shifts : ∀ {n : Nonterminal} {ls : List Lexeme} {v : β}, Derives S n ls v →
    Shifts S n ls v
  | _, _, _, .word _ => fun _ _ _ => rfl
  | _, _, _, .group inner => inner.shifts.group
  | _, _, _, .chain items => ⟨_, rfl, items.shifts⟩

theorem Items.shifts : ∀ {c : Connective} {ls : List Lexeme} {vs : List β}, Items S c ls vs →
    ShiftsItems S c ls vs
  | _, _, _, .last only => only.shifts.last
  | _, _, _, .more first rest => first.shifts.cons rest.shifts

end

/-! ## What is parsed is derived -/

/-- Items that each have the connective behind them. -/
inductive Pending (S : Semantics β) (c : Connective) : List Lexeme → List β → Prop where
  | none : Pending S c [] []
  | snoc {ls more : List Lexeme} {vs : List β} {v : β} (before : Pending S c ls vs)
    (next : Derives S (item c) more v) : Pending S c (ls ++ more ++ [connective c]) (vs ++ [v])

/-- Items that are read before others make one chain with them. -/
theorem Pending.items (h : Pending S c ls vs) (hmore : Items S c more ws) :
    Items S c (ls ++ more) (vs ++ ws) := by
  induction h generalizing more ws with
  | none => exact hmore
  | snoc before next ih =>
    rw [List.append_assoc, List.append_assoc, List.append_assoc, List.singleton_append,
      List.singleton_append]
    exact ih (.more next hmore)

theorem Pending.chain (h : Pending S c ls vs) (hlast : Derives S (item c) more v) :
    Derives S (.chain c) (ls ++ more) (S.join c (vs ++ [v])) :=
  .chain (h.items (.last hlast))

/-- The lexemes that an open group has been read from. -/
inductive Opened (S : Semantics β) : Frame β → List Lexeme → Prop where
  | waiting {lt lo : List Lexeme} {terms operands : List β} (ht : Pending S .or lt terms)
    (ho : Pending S .and lo operands) : Opened S ⟨terms, operands, none⟩ (lt ++ lo)
  | read {lt lo last : List Lexeme} {terms operands : List β} {v : β} (ht : Pending S .or lt terms)
    (ho : Pending S .and lo operands) (hlast : Derives S operand last v) :
    Opened S ⟨terms, operands, some v⟩ (lt ++ (lo ++ last))

/-- The lexemes that the open groups have been read from. -/
inductive Read (S : Semantics β) : List (Frame β) → List Lexeme → Prop where
  | outermost {f : Frame β} {ls : List Lexeme} (h : Opened S f ls) : Read S [f] ls
  | inner {f : Frame β} {terms operands : List β} {outer : List (Frame β)} {ls more : List Lexeme}
    (below : Read S (⟨terms, operands, none⟩ :: outer) ls) (h : Opened S f more) :
    Read S (f :: ⟨terms, operands, none⟩ :: outer) (ls ++ opening :: more)

/-- The innermost group can go on in any way. -/
theorem Read.top {f : Frame β} {outer : List (Frame β)} (h : Read S (f :: outer) ls) :
    ∃ front last, ls = front ++ last ∧ Opened S f last ∧
      ∀ g next, Opened S g next → Read S (g :: outer) (front ++ next) := by
  cases h with
  | outermost h => exact ⟨[], ls, rfl, h, fun g next hg => .outermost hg⟩
  | @inner _ _ _ _ ls more below h =>
    refine ⟨ls ++ [opening], more, by simp, h, fun g next hg => ?_⟩
    rw [List.append_assoc, List.singleton_append]
    exact .inner below hg

theorem Opened.closed {terms operands : List β} (h : Opened S ⟨terms, operands, some v⟩ ls) :
    Derives S expression ls (closed S terms operands v) := by
  cases h with
  | read ht ho hlast => exact ht.chain (ho.chain hlast)

/-- An operand is read where one is missing. -/
theorem Read.operand {terms operands : List β} {outer : List (Frame β)}
    (h : Read S (⟨terms, operands, none⟩ :: outer) ls) (hmore : Derives S .operand more v) :
    Read S (⟨terms, operands, some v⟩ :: outer) (ls ++ more) := by
  rcases h.top with ⟨front, last, rfl, hopened, hnext⟩
  cases hopened with
  | waiting ht ho =>
    rw [List.append_assoc, List.append_assoc]
    exact hnext _ _ (.read ht ho hmore)

/-- One lexeme more has been read. -/
theorem Read.shift {stack stack' : List (Frame β)} {l : Lexeme} (h : Read S stack ls)
    (hshift : shift S stack l = some stack') : Read S stack' (ls ++ [l]) := by
  -- a word, an opening bracket, AND, OR, a closing bracket, and what is no next lexeme
  unfold Grammar.shift at hshift
  split at hshift
  · cases hshift
    exact h.operand (.word _)
  · cases hshift
    exact .inner h (.waiting .none .none)
  · cases hshift
    rcases h.top with ⟨front, last, rfl, hopened, hnext⟩
    cases hopened with
    | @read lt lo last _ _ _ ht ho hlast =>
      have hread := hnext _ _ (.waiting ht (ho.snoc hlast))
      simpa using hread
  · cases hshift
    rcases h.top with ⟨front, last, rfl, hopened, hnext⟩
    cases hopened with
    | @read lt lo last _ _ _ ht ho hlast =>
      have hread := hnext _ _ (.waiting (ht.snoc (ho.chain hlast)) .none)
      simpa using hread
  · cases hshift
    cases h with
    | inner below hopened =>
      have hread := below.operand (.group hopened.closed)
      simpa using hread
  · cases hshift

theorem Read.run {stack : List (Frame β)} : ∀ {stack' : List (Frame β)} (more : List Lexeme)
    {ls : List Lexeme}, Read S stack ls → more.foldlM (Grammar.shift S) stack = some stack' →
      Read S stack' (ls ++ more) := by
  intro stack' more
  induction more generalizing stack with
  | nil =>
    intro ls h hrun
    cases hrun
    rwa [List.append_nil]
  | cons l more ih =>
    intro ls h hrun
    rw [List.foldlM_cons, Option.bind_eq_bind, Option.bind_eq_some_iff] at hrun
    rcases hrun with ⟨next, hl, hrun⟩
    have hread := ih (h.shift hl) hrun
    rwa [List.append_assoc, List.singleton_append] at hread

/-- The parser accepts the expressions of the grammar, and gives the value that is derived. -/
theorem parse_eq_some_iff : parse S ls = some v ↔ Derives S expression ls v := by
  constructor
  · -- rw [parse at the end only the outermost group is open, and closing it gives the value
    intro h
    rw [parse, Option.bind_eq_some_iff] at h
    rcases h with ⟨stack, hrun, hfinish⟩
    have hread := Read.run ls (.outermost (.waiting .none .none)) hrun
    unfold finish at hfinish
    split at hfinish
    · cases hfinish
      cases hread with
      | outermost hopened => exact hopened.closed
    · cases hfinish
  · intro h
    rcases h.shifts with ⟨vs, rfl, terms, operands, last, rfl, hrun⟩
    rw [parse, hrun [] []]
    rfl

/-- An expression has one value. -/
theorem Derives.unique (h : Derives S expression ls v) (hother : Derives S expression ls w) : v = w := by
  rw [← parse_eq_some_iff] at h hother
  exact Option.some.inj (h.symm.trans hother)

end Grammar

end DocQuery
