import OatppSqlite.Executor.Params
import OatppSqlite.Template.Segments

/-!
# Printing a template and parsing it back

A template as it is meant: text, variables, string literals with what they stand for, and clean
sections (`Item`). `print` writes it down, with the quotes of a value doubled and the markers
around a section, and `parseQueryTemplate_print` says that the parser gives back what was meant:
the text without the markers, the variables and no other ones, and a `?` for each of them in the
prepared text.

The values of quote-enclosed strings are any texts at all. What has to be asked for is in
`ItemsWf`, and most of it is about what stands next to each other once the markers are gone.
-/

set_option autoImplicit false

namespace OatppSqlite.Template

open Caret

/-! ## Templates, as they are meant -/

/-- What may stand in a clean section, too. -/
inductive Element where
  | text (t : Text)
  | quoted (value : Text)
  | dollar (tag body : Text)
  deriving DecidableEq, Repr

inductive Item where
  | element (e : Element)
  | var (name : Text)
  | clean (es : List Element)
  deriving DecidableEq, Repr

/-- A value with its quotes doubled. -/
def double (value : Text) : Text := value.flatMap fun a => if a = '\'' then ['\'', '\''] else [a]

/-- `'value'`. -/
def quote (value : Text) : Text := '\'' :: (double value ++ ['\''])

/-- What closes a dollar-enclosed string with this tag. -/
def closer (tag : Text) : Text := '$' :: (tag ++ ['$'])

/-- `$tag$body$tag$`. -/
def dollarQuote (tag body : Text) : Text := '$' :: (tag ++ '$' :: (body ++ closer tag))

def Element.print : Element → Text
  | .text t => t
  | .quoted value => quote value
  | .dollar tag body => dollarQuote tag body

def printElements (es : List Element) : Text := es.flatMap Element.print

def Item.print : Item → Text
  | .element e => e.print
  | .var name => ':' :: name
  | .clean es => ['<', '!', '!'] ++ (printElements es ++ ['!', '!', '>'])

/-- The template as it is written. -/
def print (items : List Item) : Text := items.flatMap Item.print

/-- Without its markers, -/
def Item.erased : Item → Text
  | .element e => e.print
  | .var name => ':' :: name
  | .clean es => printElements es

def erased (items : List Item) : Text := items.flatMap Item.erased

/-- and with a `?` for each variable. -/
def Item.prepared : Item → Text
  | .element e => e.print
  | .var _ => ['?']
  | .clean es => printElements es

def prepared (items : List Item) : Text := items.flatMap Item.prepared

/-- Where the variables stand in the text without the markers, from `p` on. -/
def variablesAt (p : Nat) : List Item → List Variable
  | [] => []
  | .var name :: items =>
    ⟨p, p + name.length, some name⟩ :: variablesAt (p + name.length + 1) items
  | item :: items => variablesAt (p + item.erased.length) items

/-! ## What has to be asked for -/

/-- The marker that counts, inside a section or outside. -/
def marker (sec : Bool) : Text := if sec then ['!', '!', '>'] else ['<', '!', '!']

/-- An element in front of the text `after`: no marker begins in a text, the quotes that are
    closed stay closed, and a dollar-enclosed string ends where it was meant to. -/
def Element.Wf (sec : Bool) (after : Text) : Element → Prop
  | .text t => (∀ a ∈ t, a ≠ '\'' ∧ a ≠ '$') ∧
      ∀ i < t.length, ¬ marker sec <+: (t ++ after).drop i
  | .quoted _ => after.head? ≠ some '\''
  | .dollar tag body => '$' ∉ tag ∧ List.afterFirst (closer tag) (body ++ closer tag) = some []

def ElementsWf (sec : Bool) (after : Text) : List Element → Prop
  | [] => True
  | e :: es => e.Wf sec (printElements es ++ after) ∧ ElementsWf sec after es

/-- An item in front of a text that is `after` without its markers: a text outside of the
    sections has no `:`, and neither a string nor a name runs on behind a marker. -/
def Item.Apart (after : Text) : Item → Prop
  | .element (.text t) => ':' ∉ t
  | .element (.quoted _) => after.head? ≠ some '\''
  | .element (.dollar _ _) => True
  | .var name => (∀ a ∈ name, isAllowedChar a = true) ∧
      ∀ a, after.head? = some a → isAllowedChar a = false
  | .clean _ => True

def ItemsWf : List Item → Prop
  | [] => True
  | item :: items => item.Apart (erased items) ∧
      (match item with
        | .element e => e.Wf false (print items)
        | .var _ => True
        | .clean es => ElementsWf true (['!', '!', '>'] ++ print items) es) ∧
      ItemsWf items

/-! All of it can be checked. -/

instance (sec : Bool) (after : Text) : (e : Element) → Decidable (e.Wf sec after)
  | .text t =>
    have := List.decidableBAll (fun a => a ≠ '\'' ∧ a ≠ '$') t
    have := Nat.decidableBallLT t.length fun i _ => ¬ marker sec <+: (t ++ after).drop i
    inferInstanceAs (Decidable ((∀ a ∈ t, a ≠ '\'' ∧ a ≠ '$') ∧
      ∀ i < t.length, ¬ marker sec <+: (t ++ after).drop i))
  | .quoted _ => inferInstanceAs (Decidable (after.head? ≠ some '\''))
  | .dollar tag body => inferInstanceAs (Decidable ('$' ∉ tag ∧
      List.afterFirst (closer tag) (body ++ closer tag) = some []))

instance decidableElementsWf (sec : Bool) (after : Text) :
    (es : List Element) → Decidable (ElementsWf sec after es)
  | [] => isTrue trivial
  | e :: es =>
    have := decidableElementsWf sec after es
    inferInstanceAs (Decidable (e.Wf sec (printElements es ++ after) ∧ ElementsWf sec after es))

instance (after : Text) : (item : Item) → Decidable (item.Apart after)
  | .element (.text t) => inferInstanceAs (Decidable (':' ∉ t))
  | .element (.quoted _) => inferInstanceAs (Decidable (after.head? ≠ some '\''))
  | .element (.dollar _ _) => isTrue trivial
  | .var name =>
    have := List.decidableBAll (fun a => isAllowedChar a = true) name
    have := Option.decidableForallMem (p := fun a => isAllowedChar a = false) after.head?
    inferInstanceAs (Decidable ((∀ a ∈ name, isAllowedChar a = true) ∧
      ∀ a ∈ after.head?, isAllowedChar a = false))
  | .clean _ => isTrue trivial

instance decidableItemsWf : (items : List Item) → Decidable (ItemsWf items)
  | [] => isTrue trivial
  | .element e :: items =>
    have := decidableItemsWf items
    inferInstanceAs (Decidable ((Item.element e).Apart (erased items) ∧
      e.Wf false (print items) ∧ ItemsWf items))
  | .var name :: items =>
    have := decidableItemsWf items
    inferInstanceAs (Decidable ((Item.var name).Apart (erased items) ∧ True ∧ ItemsWf items))
  | .clean es :: items =>
    have := decidableItemsWf items
    inferInstanceAs (Decidable ((Item.clean es).Apart (erased items) ∧
      ElementsWf true (['!', '!', '>'] ++ print items) es ∧ ItemsWf items))

/-! ## Literals

A value that is quoted and printed closes where it was meant to, in front of anything but another
quote. A dollar-enclosed body closes at the first closer, so it must not hold one. -/

section

variable {value tag body X : Text}

theorem quoteClose_double (value X : Text) :
    quoteClose (double value ++ '\'' :: X) = afterQuote X := by
  induction value with
  | nil => exact quoteClose_quote X
  | cons a value ih =>
    unfold double at ih ⊢
    rw [List.flatMap_cons]
    by_cases ha : a = '\''
    · subst ha
      exact ih
    · rw [if_neg ha, List.singleton_append, List.cons_append, quoteClose_cons ha, ih]

/-- **A quoted value is one literal**, whatever the value is. -/
theorem quoteLit_quote (value : Text) : QuoteLit (quote value) := by
  refine ⟨_, rfl, fun X => ?_⟩
  rw [List.append_assoc]
  exact quoteClose_double value X

theorem dollarLit_dollarQuote (htag : '$' ∉ tag)
    (hbody : List.afterFirst (closer tag) (body ++ closer tag) = some []) :
    DollarLit (dollarQuote tag body) := by
  refine ⟨_, rfl, fun X => ?_⟩
  obtain ⟨b, hb, -, hX⟩ := List.exists_append_of_afterFirst hbody
  rw [List.append_nil] at hb
  rw [List.append_assoc, List.cons_append, dollarClose_tag htag, hb]
  exact hX X

end

/-! ## The scan of a printed template

The scanner does not know of items: it cuts the printed text into the pieces that the items were
printed of, markers included. This is where most of `ItemsWf` is used. -/

def Element.pieces : Element → List Piece
  | .text t => t.map .chr
  | .quoted value => [.lit (quote value)]
  | .dollar tag body => [.lit (dollarQuote tag body)]

def Item.pieces : Item → List Piece
  | .element e => e.pieces
  | .var name => (':' :: name).map .chr
  | .clean es => .opn :: (es.flatMap Element.pieces ++ [.cls])

section

variable {sec : Bool} {t after name : Text} {e : Element} {es : List Element} {items : List Item}

/-- The scan of a text that begins with these pieces. -/
def ScansAs (sec : Bool) (t : Text) (ps : List Piece) (sec' : Bool) (after : Text) : Prop :=
  scan sec (t ++ after) = (ps ++ (scan sec' after).1, (scan sec' after).2)

theorem ScansAs.append {sec₁ sec₂ : Bool} {u : Text} {ps qs : List Piece}
    (h : ScansAs sec t ps sec₁ (u ++ after)) (h' : ScansAs sec₁ u qs sec₂ after) :
    ScansAs sec (t ++ u) (ps ++ qs) sec₂ after := by
  unfold ScansAs at h h' ⊢
  rw [List.append_assoc, h, h', List.append_assoc]

theorem scansAs_text (hchars : ∀ a ∈ t, a ≠ '\'' ∧ a ≠ '$')
    (hmarker : ∀ i < t.length, ¬ marker sec <+: (t ++ after).drop i) :
    ScansAs sec t (t.map .chr) sec after := by
  induction t with
  | nil => rfl
  | cons a t ih =>
    obtain ⟨hquote, hdollar⟩ := hchars a List.mem_cons_self
    have hfirst : ¬ marker sec <+: a :: (t ++ after) := hmarker 0 (Nat.succ_pos _)
    have hrest := ih (fun b hb => hchars b (List.mem_cons_of_mem _ hb))
      fun i hi => hmarker (i + 1) (Nat.succ_lt_succ hi)
    unfold ScansAs at hrest ⊢
    rw [List.cons_append, scan_chr, hrest]
    · rfl
    · rintro (h | h)
      · exact hquote h
      · exact hdollar h
    · rintro ⟨rfl, hpre⟩
      exact hfirst hpre
    · rintro ⟨rfl, hpre⟩
      exact hfirst hpre

theorem scansAs_literal {s : Text}
    (h : QuoteLit s ∧ after.head? ≠ some '\'' ∨ DollarLit s) :
    ScansAs sec s [.lit s] sec after := by
  unfold ScansAs
  rcases h with ⟨⟨b, rfl, hclose⟩, hafter⟩ | ⟨b, rfl, hclose⟩
  · refine scan_lit (Or.inl rfl) ?_
    rw [closeLit, if_pos rfl, hclose, afterQuote_of_head_ne hafter]
  · refine scan_lit (Or.inr rfl) ?_
    rw [closeLit, if_neg (by decide), hclose]

theorem Element.Wf.scansAs (h : e.Wf sec after) : ScansAs sec e.print e.pieces sec after := by
  cases e with
  | text t => exact scansAs_text h.1 h.2
  | quoted value => exact scansAs_literal (Or.inl ⟨quoteLit_quote value, h⟩)
  | dollar tag body => exact scansAs_literal (Or.inr (dollarLit_dollarQuote h.1 h.2))

theorem ElementsWf.scansAs (h : ElementsWf sec after es) :
    ScansAs sec (printElements es) (es.flatMap Element.pieces) sec after := by
  induction es with
  | nil => rfl
  | cons e es ih => exact h.1.scansAs.append (ih h.2)

theorem scansAs_variable (hname : ∀ a ∈ name, isAllowedChar a = true) :
    ScansAs false (':' :: name) ((':' :: name).map .chr) false after := by
  have hchars : ∀ a ∈ ':' :: name, a ≠ '\'' ∧ a ≠ '$' ∧ a ≠ '<' := by
    intro a ha
    rcases List.mem_cons.mp ha with rfl | ha
    · decide
    · exact (plain_of_allowed hname a ha).2
  exact scan_append_of_plain hchars

theorem scansAs_clean (h : ElementsWf true (['!', '!', '>'] ++ after) es) :
    ScansAs false (Item.clean es).print (Item.clean es).pieces false after := by
  have hopen : ScansAs false ['<', '!', '!'] [.opn] true
      (printElements es ++ ['!', '!', '>'] ++ after) := scan_opn
  have hclose : ScansAs true ['!', '!', '>'] [.cls] false after := scan_cls
  exact hopen.append (h.scansAs.append hclose)

/-- **The scan meets what was meant.** -/
theorem ItemsWf.scan_print (h : ItemsWf items) :
    scan false (print items) = (items.flatMap Item.pieces, []) := by
  induction items with
  | nil => exact scan_nil
  | cons item items ih =>
    obtain ⟨hapart, hitem, hitems⟩ := h
    have hfirst : ScansAs false item.print item.pieces false (print items) := by
      cases item with
      | element e => exact Element.Wf.scansAs hitem
      | var name => exact scansAs_variable hapart.1
      | clean es => exact scansAs_clean hitem
    unfold ScansAs at hfirst
    unfold print at hfirst ih ⊢
    rw [List.flatMap_cons, hfirst, ih hitems]
    rfl

end

/-! ## What the parser finds in it -/

section

variable {e : Element} {es : List Element} {item : Item} {items : List Item} {ps : List Piece}
  {name t : Text} {p i : Nat}

theorem bytes_append (ps qs : List Piece) : bytes (ps ++ qs) = bytes ps ++ bytes qs :=
  List.flatMap_append

theorem bytes_pieces (e : Element) : bytes e.pieces = e.print := by
  cases e with
  | text t => exact bytes_map_chr t
  | quoted value => exact List.append_nil _
  | dollar tag body => exact List.append_nil _

theorem bytes_elements (es : List Element) :
    bytes (es.flatMap Element.pieces) = printElements es := by
  induction es with
  | nil => rfl
  | cons e es ih =>
    rw [List.flatMap_cons, bytes_append, bytes_pieces, ih]
    rfl

theorem bytes_item (item : Item) : bytes item.pieces = item.erased := by
  cases item with
  | element e => exact bytes_pieces e
  | var name => exact bytes_map_chr _
  | clean es =>
    show bytes (es.flatMap Element.pieces ++ [.cls]) = printElements es
    rw [bytes_append, bytes_elements]
    exact List.append_nil _

theorem bytes_items (items : List Item) : bytes (items.flatMap Item.pieces) = erased items := by
  induction items with
  | nil => rfl
  | cons item items ih =>
    rw [List.flatMap_cons, bytes_append, bytes_item, ih]
    rfl

theorem foundVariables_text {b : Bool} (h : b = true ∨ ':' ∉ t) :
    foundVariables [] p b (t.map .chr ++ ps) = foundVariables [] (p + t.length) b ps := by
  induction t generalizing p with
  | nil => rfl
  | cons a t ih =>
    have ha : ¬ (a = ':' ∧ b = false) := by
      rintro ⟨rfl, rfl⟩
      rcases h with h | h
      · cases h
      · exact h List.mem_cons_self
    have hrest : b = true ∨ ':' ∉ t := h.imp_right fun h hmem => h (List.mem_cons_of_mem _ hmem)
    rw [List.map_cons, List.cons_append, foundVariables, if_neg ha, ih hrest, List.length_cons]
    congr 1
    omega

theorem foundVariables_literal {b : Bool} {s : Text} (h : b = true ∨ quoteGlued [] s ps = false) :
    foundVariables [] p b (.lit s :: ps) = foundVariables [] (p + s.length) b ps := by
  rw [foundVariables, if_neg]
  rintro ⟨rfl, hglued⟩
  rcases h with h | h
  · cases h
  · exact Bool.noConfusion (hglued.symm.trans h)

/-- Inside a section nothing is found, -/
theorem foundVariables_inside (e : Element) :
    foundVariables [] p true (e.pieces ++ ps)
      = foundVariables [] (p + e.print.length) true ps := by
  cases e with
  | text t => exact foundVariables_text (Or.inl rfl)
  | quoted value => exact foundVariables_literal (Or.inl rfl)
  | dollar tag body => exact foundVariables_literal (Or.inl rfl)

theorem foundVariables_elements (es : List Element) :
    foundVariables [] p true (es.flatMap Element.pieces ++ ps)
      = foundVariables [] (p + (printElements es).length) true ps := by
  induction es generalizing p with
  | nil => rfl
  | cons e es ih =>
    rw [List.flatMap_cons, List.append_assoc, foundVariables_inside, ih]
    show _ = foundVariables [] (p + (e.print ++ printElements es).length) true ps
    rw [List.length_append, Nat.add_assoc]

theorem quoteGlued_quoted {value : Text} (h : (Item.element (.quoted value)).Apart (bytes ps)) :
    quoteGlued [] (quote value) ps = false := by
  have hnot : (bytes ps).head? ≠ some '\'' := h
  rw [quoteGlued, List.append_nil]
  simp [hnot]

/-- and outside of one nothing is found in a text or a string. -/
theorem foundVariables_outside (h : (Item.element e).Apart (bytes ps)) :
    foundVariables [] p false (e.pieces ++ ps)
      = foundVariables [] (p + e.print.length) false ps := by
  cases e with
  | text t => exact foundVariables_text (Or.inr h)
  | quoted value => exact foundVariables_literal (Or.inr (quoteGlued_quoted h))
  | dollar tag body => exact foundVariables_literal (Or.inr rfl)

theorem nameGlued_of_head (h : ∀ a, (bytes ps).head? = some a → isAllowedChar a = false) :
    nameGlued [] ps = false := by
  have hmarker : ∀ qs, bytes qs = bytes ps → (bytes qs ++ []).head?.any isAllowedChar = false := by
    intro qs hqs
    rw [List.append_nil, hqs]
    cases hhead : (bytes ps).head? with
    | none => rfl
    | some a => exact h a hhead
  cases ps with
  | nil => rfl
  | cons piece ps =>
    cases piece with
    | lit s => rfl
    | chr a =>
      have ha : isAllowedChar a = false := h a rfl
      rw [nameGlued, ha, Bool.false_and]
    | opn => exact hmarker ps rfl
    | cls => exact hmarker ps rfl

theorem colon_not_mem (hname : ∀ a ∈ name, isAllowedChar a = true) : ':' ∉ name := by
  intro hmem
  exact (plain_of_allowed hname ':' hmem).1 rfl

theorem erasedName_variable (h : (Item.var name).Apart (bytes ps)) :
    erasedName [] (name.map .chr ++ ps) = name := by
  obtain ⟨hname, hstop⟩ := h
  rw [erasedName, bytes_append, bytes_map_chr, List.append_nil, takeWhile_name hname hstop]

theorem nameGlued_variable (h : (Item.var name).Apart (bytes ps)) :
    nameGlued [] (name.map .chr ++ ps) = false := by
  obtain ⟨hname, hstop⟩ := h
  induction name with
  | nil => exact nameGlued_of_head hstop
  | cons a name ih =>
    rw [List.map_cons, List.cons_append, nameGlued, hname a List.mem_cons_self, Bool.true_and]
    exact ih fun b hb => hname b (List.mem_cons_of_mem _ hb)

/-- A variable is found where it was written, under its whole name, -/
theorem foundVariables_variable (h : (Item.var name).Apart (bytes ps)) :
    foundVariables [] p false ((Item.var name).pieces ++ ps)
      = ⟨p, p + name.length, some name⟩ :: foundVariables [] (p + name.length + 1) false ps := by
  show foundVariables [] p false (.chr ':' :: (name.map .chr ++ ps)) = _
  rw [foundVariables, if_pos ⟨rfl, rfl⟩, erasedName_variable h, nameGlued_variable h,
    if_neg Bool.false_ne_true, foundVariables_text (Or.inr (colon_not_mem h.1)),
    Nat.add_right_comm]

theorem contains_cls (es : List Element) :
    ((es.flatMap Element.pieces ++ [Piece.cls]) ++ ps).contains .cls = true := by
  simp

/-- and a section is left again where it ends. -/
theorem foundVariables_clean (es : List Element) :
    foundVariables [] p false ((Item.clean es).pieces ++ ps)
      = foundVariables [] (p + (printElements es).length) false ps := by
  show foundVariables [] p false (.opn :: ((es.flatMap Element.pieces ++ [.cls]) ++ ps)) = _
  rw [foundVariables, if_pos (contains_cls es), List.append_assoc, foundVariables_elements]
  rfl

theorem ItemsWf.foundVariables_print (h : ItemsWf items) :
    foundVariables [] p false (items.flatMap Item.pieces) = variablesAt p items := by
  induction items generalizing p with
  | nil => rfl
  | cons item items ih =>
    obtain ⟨hapart, -, hitems⟩ := h
    rw [← bytes_items] at hapart
    rw [List.flatMap_cons]
    cases item with
    | element e =>
      show foundVariables [] p false (e.pieces ++ _) = _
      rw [foundVariables_outside hapart, ih hitems]
      rfl
    | var name =>
      rw [foundVariables_variable hapart, ih hitems]
      rfl
    | clean es =>
      rw [foundVariables_clean, ih hitems]
      rfl

/-- **The prepared text is the one that was meant.** -/
theorem weave_erased {text before : Text} (htext : text.drop p = before ++ erased items) :
    weave getValue text p i (variablesAt (p + before.length) items) = before ++ prepared items := by
  induction items generalizing p i before with
  | nil => exact htext
  | cons item items ih =>
    -- what is no variable is the same in both texts
    have hkept : ∀ kept : Text, item.erased = kept → item.prepared = kept →
        weave getValue text p i (variablesAt (p + before.length + kept.length) items)
          = before ++ prepared (item :: items) := by
      intro kept herased hprepared
      have hrest : text.drop p = (before ++ kept) ++ erased items := by
        rw [htext, ← herased, List.append_assoc]
        rfl
      have hwoven := ih (i := i) hrest
      rw [List.length_append, ← Nat.add_assoc] at hwoven
      rw [hwoven, List.append_assoc, ← hprepared]
      rfl
    cases item with
    | element e => exact hkept e.print rfl rfl
    | clean es => exact hkept (printElements es) rfl rfl
    | var name =>
      have hsplit : text.drop p = (before ++ ':' :: name) ++ erased items := by
        rw [htext, List.append_assoc]
        rfl
      have hrest : text.drop (p + before.length + name.length + 1) = [] ++ erased items := by
        have hsum : p + before.length + name.length + 1 = p + (before ++ ':' :: name).length := by
          rw [List.length_append, List.length_cons]
          omega
        rw [hsum, ← List.drop_drop, hsplit, List.drop_left, List.nil_append]
      have hwoven : weave getValue text (p + before.length + name.length + 1) (i + 1)
          (variablesAt (p + before.length + name.length + 1) items) = prepared items := ih hrest
      rw [variablesAt, weave_cons, hwoven, htext]
      show (before ++ _).take (p + before.length - p) ++ _ = _
      rw [Nat.add_sub_cancel_left, List.take_left]
      rfl

end

/-! ## There and back -/

section

variable {κ : Type} [Caret κ] {format : FormatFn} {items : List Item}

/-- **What was printed is what the parser gives back**: the text without the markers, the
    variables that were written, and a prepared text that has a `?` for each of them. -/
theorem parseQueryTemplate_print [LawfulCaret κ] (hformat : LawfulFormat format)
    (h : ItemsWf items) (name : Option Text) (prepare : Bool) :
    Executor.parseQueryTemplate κ format name (print items) prepare
      = some (.ok ⟨⟨erased items, variablesAt 0 items⟩, ⟨name, prepared items, prepare⟩⟩) := by
  have hscan := h.scan_print
  have hclosed : (scan false (print items)).2 = [] := by rw [hscan]
  have hbytes : bytes (scan false (print items)).1 = erased items := by
    rw [hscan, bytes_items]
  have hvariables : Executor.variablesOf (print items) = variablesAt 0 items := by
    rw [Executor.variablesOf, hscan, h.foundVariables_print]
  have hprepared : Executor.preparedText (print items) = prepared items := by
    rw [Executor.preparedText, hbytes, hvariables]
    have hrest : (erased items).drop 0 = [] ++ erased items := rfl
    exact weave_erased hrest
  have hparse := Executor.parseQueryTemplate_eq κ name (print items) prepare hformat
  rw [if_pos hclosed, hbytes, hvariables, hprepared] at hparse
  exact hparse

/-- A value with a `:` and a quote in it, a dollar-enclosed one, and a section. -/
def sampleItems : List Item :=
  [.element (.text "a=".toList), .var "u.id".toList, .element (.text " b=".toList),
    .element (.quoted "it's :x".toList), .element (.text " c=".toList),
    .element (.dollar "t".toList "$:y".toList), .clean [.text " d::e".toList], .var "z".toList]

theorem parseQueryTemplate_print_sample :
    Executor.parseQueryTemplate TextCaret Executor.weaveFormat none (print sampleItems) true
      = some (.ok ⟨⟨erased sampleItems, variablesAt 0 sampleItems⟩,
          ⟨none, prepared sampleItems, true⟩⟩) :=
  parseQueryTemplate_print (fun _ _ _ => rfl) (by decide +kernel) none true

end

end OatppSqlite.Template
