import OatppSqlite.Template.Printer
import OatppSqlite.Template.PutBack

/-!
# The templates that can be meant

`Template/Printer.lean` says what the parser makes of a printed template. This is the other
direction: which texts are printed templates at all. Three things are asked of a text
(`parseTemplate_print_iff`): the parser accepts it, it closes the sections it opens, and the
loop of `parseTemplate` begins no pass behind a section it has not jumped over. Where one of
them fails, no well-formed template is written that way.

The template is read off the text from left to right, a byte at a time except for strings,
names and sections; what a name is, is seen only at its end, so the induction is on the length
of what is left (`Tidy.written`).
-/

set_option autoImplicit false

namespace OatppSqlite.Template

open Caret

/-! ## Literals are what was quoted -/

section

variable {s after u : Text} {sec : Bool}

/-- What a quote closes to the end is a value with its quotes doubled. -/
theorem exists_double {b : Text} :
    quoteClose b = some [] → ∃ value, b = double value ++ ['\''] := by
  induction b using quoteClose.induct with
  | case1 =>
    intro h
    cases h
  | case2 t ih =>
    intro h
    obtain ⟨value, rfl⟩ := ih h
    exact ⟨'\'' :: value, rfl⟩
  | case3 t hne =>
    intro h
    have ht : t.head? ≠ some '\'' := by
      intro hhead
      obtain ⟨t', rfl⟩ := List.head?_eq_some_iff.mp hhead
      exact hne t' rfl
    rw [quoteClose_quote, afterQuote_of_head_ne ht, Option.some.injEq] at h
    subst h
    exact ⟨[], rfl⟩
  | case4 a t _ ha ih =>
    intro h
    rw [quoteClose_cons ha] at h
    obtain ⟨value, rfl⟩ := ih h
    refine ⟨a :: value, ?_⟩
    unfold double
    rw [List.flatMap_cons, if_neg ha]
    rfl

theorem QuoteLit.exists_value (h : QuoteLit s) : ∃ value, s = quote value := by
  obtain ⟨b, rfl, hclose⟩ := h
  have hb : quoteClose b = some [] := by
    have hnil := hclose []
    rwa [List.append_nil] at hnil
  obtain ⟨value, rfl⟩ := exists_double hb
  exact ⟨value, rfl⟩

theorem DollarLit.exists_body (h : DollarLit s) : ∃ tag body, s = dollarQuote tag body ∧
    '$' ∉ tag ∧ List.afterFirst (closer tag) (body ++ closer tag) = some [] := by
  obtain ⟨b, rfl, hclose⟩ := h
  have hb : dollarClose b = some [] := by
    have hnil := hclose []
    rwa [List.append_nil] at hnil
  have hmem : '$' ∈ b := by
    by_contra hnot
    rw [dollarClose_eq_none_of_not_mem hnot] at hb
    cases hb
  obtain ⟨tag, t, rfl, htag⟩ := List.eq_append_cons_of_mem hmem
  rw [dollarClose_tag htag] at hb
  -- the closer stands at the very end
  have hdrop : List.afterFirst (closer tag) (t.drop 0) = some [] := hb
  obtain ⟨i, hleast, hend⟩ := List.afterFirst_drop_eq_some_iff.mp hdrop
  obtain ⟨rest, hrest⟩ := hleast.1.2
  have hnil : rest = [] := by
    rw [← List.drop_drop, ← hrest, List.drop_left] at hend
    exact hend.symm
  rw [hnil, List.append_nil] at hrest
  have ht : t = t.take i ++ closer tag := by rw [hrest, List.take_append_drop]
  refine ⟨tag, t.take i, ?_, htag, ?_⟩
  · rw [dollarQuote, ← ht]
  · rw [← ht]
    exact hb

/-- **A closed literal is an element**, and one that stands apart from what does not begin with
    the quote it ends with. -/
theorem exists_element (h : QuoteLit s ∧ after.head? ≠ some '\'' ∨ DollarLit s) :
    ∃ e : Element, e.print = s ∧ e.Wf sec after ∧
      ((s.head? = some '\'' → u.head? ≠ some '\'') → (Item.element e).Apart u) := by
  rcases h with ⟨hs, hafter⟩ | hs
  · obtain ⟨value, rfl⟩ := hs.exists_value
    exact ⟨.quoted value, rfl, hafter, fun hu => hu rfl⟩
  · obtain ⟨tag, body, rfl, htag, hbody⟩ := hs.exists_body
    exact ⟨.dollar tag body, rfl, ⟨htag, hbody⟩, fun _ => trivial⟩

end

/-! ## Pieces without a marker -/

section

variable {ps : List Piece} {tail t : Text} {sec : Bool}

theorem cls_mem_of_endsOutside (h : endsOutside true ps = true) : .cls ∈ ps := by
  induction ps with
  | nil => cases h
  | cons x ps ih =>
    cases x with
    | lit s => exact List.mem_cons_of_mem _ (ih h)
    | chr c => exact List.mem_cons_of_mem _ (ih h)
    | opn => exact List.mem_cons_of_mem _ (ih h)
    | cls => exact List.mem_cons_self

/-- Where sections are closed and none is, none is opened. -/
theorem opn_not_mem (h : endsOutside false ps = true) (hcls : .cls ∉ ps) : .opn ∉ ps := by
  induction ps with
  | nil => exact List.not_mem_nil
  | cons x ps ih =>
    have hps : .cls ∉ ps := fun hmem => hcls (List.mem_cons_of_mem _ hmem)
    cases x with
    | lit s =>
      intro hmem
      exact ih h hps ((List.mem_cons.mp hmem).resolve_left nofun)
    | chr c =>
      intro hmem
      exact ih h hps ((List.mem_cons.mp hmem).resolve_left nofun)
    | opn => exact absurd (cls_mem_of_endsOutside h) hps
    | cls => exact absurd List.mem_cons_self hcls

theorem bytes_eq_source (hopn : .opn ∉ ps) (hcls : .cls ∉ ps) : bytes ps = source ps := by
  induction ps with
  | nil => rfl
  | cons x ps ih =>
    have hx : x.Kept := by
      constructor
      · rintro rfl
        exact hopn List.mem_cons_self
      · rintro rfl
        exact hcls List.mem_cons_self
    rw [bytes_cons, source_cons, hx.source_eq, ih (fun hmem => hopn (List.mem_cons_of_mem _ hmem))
      fun hmem => hcls (List.mem_cons_of_mem _ hmem)]

theorem source_text (t : Text) : source (t.map .chr ++ ps) = t ++ source ps := by
  induction t with
  | nil => rfl
  | cons a t ih =>
    rw [List.map_cons, List.cons_append, source_cons, ih]
    rfl

theorem endsOutside_text (t : Text) : endsOutside sec (t.map .chr ++ ps) = endsOutside sec ps := by
  induction t with
  | nil => rfl
  | cons a t ih => exact ih

theorem neverSkips_text {b : Bool} (h : b = true ∨ ':' ∉ t) :
    neverSkips tail b (t.map .chr ++ ps) = neverSkips tail b ps := by
  induction t with
  | nil => rfl
  | cons a t ih =>
    have hrest : b = true ∨ ':' ∉ t := h.imp_right fun h hmem => h (List.mem_cons_of_mem _ hmem)
    have ha : b = true ∨ a ≠ ':' := by
      apply h.imp_right
      intro h hcolon
      exact h (hcolon ▸ List.mem_cons_self)
    rw [List.map_cons, List.cons_append, neverSkips, ih hrest]
    rcases ha with rfl | ha
    · simp
    · simp [ha]

/-- The bytes of a name at the head of the pieces, and what is behind them. -/
theorem exists_nameRun (ps : List Piece) :
    ∃ qs, ps = (identRun ps).map .chr ++ qs ∧ identRun qs = [] := by
  induction ps with
  | nil => exact ⟨[], rfl, rfl⟩
  | cons x ps ih =>
    cases x with
    | lit s => exact ⟨.lit s :: ps, rfl, rfl⟩
    | opn => exact ⟨.opn :: ps, rfl, rfl⟩
    | cls => exact ⟨.cls :: ps, rfl, rfl⟩
    | chr a =>
      by_cases ha : isAllowedChar a = true
      · obtain ⟨qs, hqs, hrun⟩ := ih
        refine ⟨qs, ?_, hrun⟩
        rw [identRun_chr ha, List.map_cons, List.cons_append, ← hqs]
      · have hnil : identRun (.chr a :: ps) = [] := if_neg ha
        rw [hnil]
        exact ⟨.chr a :: ps, rfl, hnil⟩

theorem allowed_of_identRun (ps : List Piece) : ∀ a ∈ identRun ps, isAllowedChar a = true := by
  induction ps with
  | nil => nofun
  | cons x ps ih =>
    cases x with
    | lit s => nofun
    | opn => nofun
    | cls => nofun
    | chr a =>
      by_cases ha : isAllowedChar a = true
      · rw [identRun_chr ha]
        exact List.forall_mem_cons.mpr ⟨ha, ih⟩
      · have hnil : identRun (.chr a :: ps) = [] := if_neg ha
        rw [hnil]
        nofun

/-- Without a marker in between, a name ends where its bytes end. -/
theorem stops_of_identRun (hs : Scanned tail false ps) (hopn : .opn ∉ ps) (hrun : identRun ps = []) :
    ∀ a, (bytes ps).head? = some a → isAllowedChar a = false := by
  intro a ha
  cases ps with
  | nil => cases ha
  | cons x ps =>
    cases x with
    | lit s =>
      rcases hs.head_of_lit with h | h
      · obtain ⟨b, rfl⟩ := List.head?_eq_some_iff.mp h
        cases ha
        rfl
      · obtain ⟨b, rfl⟩ := List.head?_eq_some_iff.mp h
        cases ha
        rfl
    | chr c =>
      cases ha
      by_contra hallowed
      rw [Bool.not_eq_false] at hallowed
      rw [identRun_chr hallowed] at hrun
      cases hrun
    | opn => exact absurd List.mem_cons_self hopn
    | cls => cases hs

end

/-! ## Texts that can be read back -/

/-- All of a text's literals and sections are closed, and nothing in it is glued to a section:
    from outside of a section or, with `sec`, from inside of one. -/
structure Tidy (sec : Bool) (t : Text) : Prop where
  closed : (scan sec t).2 = []
  ends : endsOutside sec (scan sec t).1 = true
  skips : neverSkips [] sec (scan sec t).1 = true

/-- A text that was meant: a printed template, or the rest of a section with one behind it. -/
def Written : Bool → Text → Prop
  | false, t => ∃ items, ItemsWf items ∧ print items = t
  | true, t => ∃ es items, ElementsWf true (['!', '!', '>'] ++ print items) es ∧ ItemsWf items ∧
      printElements es ++ (['!', '!', '>'] ++ print items) = t

section

variable {sec : Bool} {c q : Char} {t rest b name : Text} {e : Element} {ps : List Piece}

/-! What is tidy stays tidy from piece to piece. -/

theorem Tidy.lit (hq : q = '\'' ∨ q = '$') (hc : closeLit q (b ++ rest) = some rest)
    (h : Tidy sec (q :: (b ++ rest))) : Tidy sec rest ∧
      (sec = false → .cls ∈ (scan false rest).1 →
        quoteGlued [] (q :: b) (scan false rest).1 = false) := by
  obtain ⟨hclosed, hends, hskips⟩ := h
  rw [scan_lit hq hc] at hclosed hends hskips
  rw [neverSkips, Bool.and_eq_true] at hskips
  refine ⟨⟨hclosed, hends, hskips.2⟩, fun hsec hcls => ?_⟩
  subst hsec
  simpa [hcls] using hskips.1

theorem Tidy.opn (h : Tidy false ('<' :: '!' :: '!' :: t)) : Tidy true t := by
  obtain ⟨hclosed, hends, hskips⟩ := h
  rw [scan_opn] at hclosed hends hskips
  have hcls : (scan true t).1.contains .cls = true := by
    simpa using cls_mem_of_endsOutside hends
  rw [neverSkips, hcls] at hskips
  exact ⟨hclosed, hends, hskips⟩

theorem Tidy.cls (h : Tidy true ('!' :: '!' :: '>' :: t)) : Tidy false t := by
  obtain ⟨hclosed, hends, hskips⟩ := h
  rw [scan_cls] at hclosed hends hskips
  exact ⟨hclosed, hends, hskips⟩

theorem Tidy.chr (hscan : scan sec (c :: t) = (.chr c :: (scan sec t).1, (scan sec t).2))
    (h : Tidy sec (c :: t)) : Tidy sec t ∧
      (sec = false → c = ':' → .cls ∈ (scan false t).1 →
        nameGlued [] (scan false t).1 = false) := by
  obtain ⟨hclosed, hends, hskips⟩ := h
  rw [hscan] at hclosed hends hskips
  rw [neverSkips, Bool.and_eq_true] at hskips
  refine ⟨⟨hclosed, hends, hskips.2⟩, fun hsec hcolon hcls => ?_⟩
  subst hsec hcolon
  simpa [hcls] using hskips.1

/-- Outside of the sections, with none to come, nothing is erased. -/
theorem Tidy.unmarked (h : Tidy false t) (hcls : .cls ∉ (scan false t).1) :
    .opn ∉ (scan false t).1 ∧ bytes (scan false t).1 = t := by
  have hopn := opn_not_mem h.ends hcls
  have hsource := source_scan false t
  rw [h.closed, List.append_nil] at hsource
  exact ⟨hopn, (bytes_eq_source hopn hcls).trans hsource⟩

/-- **A name ends where its author ended it**: behind its last byte stands something that ends
    it with the markers and without. -/
theorem Tidy.colon (h : Tidy false (':' :: t)) : ∃ name rest, t = name ++ rest ∧
    (Item.var name).Apart (bytes (scan false rest).1) ∧ Tidy false rest := by
  have hcolon : scan false (':' :: t) = (.chr ':' :: (scan false t).1, (scan false t).2) :=
    scan_chr (by decide) (by simp) (by simp)
  obtain ⟨htidy, hglued⟩ := h.chr hcolon
  obtain ⟨qs, hqs, hrun⟩ := exists_nameRun (scan false t).1
  have hallowed := allowed_of_identRun (scan false t).1
  have herased : .cls ∈ (scan false t).1 →
      (bytes (scan false t).1).takeWhile isAllowedChar = identRun (scan false t).1 := by
    intro hcls
    obtain ⟨hs, ho⟩ := scan_scanned false t
    rw [htidy.closed] at hs ho
    have hname := mt (nameGlued_iff ho hs).mpr (Bool.not_eq_true _ ▸ hglued rfl rfl hcls)
    simpa [erasedName] using hname
  generalize identRun (scan false t).1 = name at *
  have ht : t = name ++ source qs := by
    have hsource := source_scan false t
    rw [htidy.closed, List.append_nil, hqs, source_text] at hsource
    exact hsource.symm
  -- a name is scanned byte by byte, so what is behind it is scanned by itself
  have hscan : scan false t
      = (name.map .chr ++ (scan false (source qs)).1, (scan false (source qs)).2) := by
    rw [ht]
    exact scan_append_of_plain fun a ha => (plain_of_allowed hallowed a ha).2
  have hrest : (scan false (source qs)).1 = qs := by
    rw [hscan] at hqs
    exact List.append_cancel_left hqs
  refine ⟨name, source qs, ht, ⟨hallowed, ?_⟩, ?_, ?_, ?_⟩
  · rw [hrest]
    by_cases hcls : .cls ∈ (scan false t).1
    · -- a section is still to come, so the name is not glued
      have hrun := herased hcls
      rw [hqs, bytes_append, bytes_map_chr, List.takeWhile_append_of_pos hallowed,
        List.append_right_eq_self] at hrun
      intro a ha
      obtain ⟨u, hu⟩ := List.head?_eq_some_iff.mp ha
      by_contra hname
      rw [Bool.not_eq_false] at hname
      rw [hu, List.takeWhile_cons_of_pos hname] at hrun
      cases hrun
    · -- there is no marker that the name could run on behind
      have hopn := (htidy.unmarked hcls).1
      rw [hqs] at hopn
      have hs := (scan_scanned false (source qs)).1
      rw [hrest] at hs
      exact stops_of_identRun hs (fun hmem => hopn (List.mem_append_right _ hmem)) hrun
  · have hclosed := htidy.closed
    rw [hscan] at hclosed
    exact hclosed
  · have hends := htidy.ends
    rw [hscan, endsOutside_text] at hends
    exact hends
  · have hskips := htidy.skips
    rw [hscan, neverSkips_text (Or.inr (colon_not_mem hallowed))] at hskips
    exact hskips

/-! ## A tidy text is one that was meant -/

theorem Written.element (h : Written sec rest) (hwf : e.Wf sec rest)
    (hapart : sec = false → (Item.element e).Apart (bytes (scan false rest).1)) :
    Written sec (e.print ++ rest) := by
  cases sec with
  | false =>
    obtain ⟨items, hitems, rfl⟩ := h
    have hitem := hapart rfl
    rw [hitems.scan_print, bytes_items] at hitem
    exact ⟨.element e :: items, ⟨hitem, hwf, hitems⟩, rfl⟩
  | true =>
    obtain ⟨es, items, hes, hitems, rfl⟩ := h
    refine ⟨e :: es, items, ⟨hwf, hes⟩, hitems, ?_⟩
    show e.print ++ printElements es ++ _ = _
    rw [List.append_assoc]

theorem Written.opn (h : Written true rest) : Written false ('<' :: '!' :: '!' :: rest) := by
  obtain ⟨es, items, hes, hitems, rfl⟩ := h
  refine ⟨.clean es :: items, ⟨trivial, hes, hitems⟩, ?_⟩
  show ['<', '!', '!'] ++ (printElements es ++ ['!', '!', '>']) ++ print items = _
  rw [List.append_assoc, List.append_assoc]
  rfl

theorem Written.cls (h : Written false rest) : Written true ('!' :: '!' :: '>' :: rest) := by
  obtain ⟨items, hitems, rfl⟩ := h
  exact ⟨[], items, trivial, hitems, rfl⟩

theorem Written.var (h : Written false rest)
    (hapart : (Item.var name).Apart (bytes (scan false rest).1)) :
    Written false (':' :: (name ++ rest)) := by
  obtain ⟨items, hitems, rfl⟩ := h
  rw [hitems.scan_print, bytes_items] at hapart
  exact ⟨.var name :: items, ⟨hapart, trivial, hitems⟩, rfl⟩

/-- A byte that opens nothing is a text of its own. -/
theorem Written.byte (h : Written sec rest) (hq : ¬ (c = '\'' ∨ c = '$'))
    (hmarker : ¬ marker sec <+: c :: rest) (hcolon : sec = false → c ≠ ':') :
    Written sec (c :: rest) := by
  refine Written.element (e := .text [c]) h ⟨?_, ?_⟩ ?_
  · intro a ha
    rw [List.mem_singleton] at ha
    subst ha
    exact not_or.mp hq
  · intro i hi
    rw [Nat.lt_one_iff.mp hi]
    exact hmarker
  · intro hsec hmem
    exact hcolon hsec (List.mem_singleton.mp hmem).symm

theorem Written.literal (hq : q = '\'' ∨ q = '$') (hc : closeLit q (b ++ rest) = some rest)
    (htidy : Tidy sec (q :: (b ++ rest))) (h : Written sec rest) :
    Written sec (q :: (b ++ rest)) := by
  obtain ⟨hrest, hglued⟩ := htidy.lit hq hc
  obtain ⟨b', hb, hlit⟩ := closeLit_eq_some hq hc
  obtain rfl : b = b' := List.append_cancel_right hb
  obtain ⟨e, he, hwf, hapart⟩ := @exists_element _ _ (bytes (scan false rest).1) sec hlit
  have hprint : q :: (b ++ rest) = e.print ++ rest := by
    rw [he]
    rfl
  rw [hprint]
  refine h.element hwf fun hsec => hapart fun hhead => ?_
  subst hsec
  by_cases hcls : .cls ∈ (scan false rest).1
  · intro hquote
    have hnot := hglued rfl hcls
    rw [quoteGlued, List.append_nil] at hnot
    simp [hhead, hquote] at hnot
  · -- with no marker to come, what is behind the string is what it was closed in front of
    rw [(hrest.unmarked hcls).2]
    rcases hlit with ⟨-, hne⟩ | hdollar
    · exact hne
    · rw [hdollar.head] at hhead
      cases hhead

/-- **Whatever is tidy was meant.** A name is passed in one step, so what is left gets shorter
    by any length. -/
theorem Tidy.written (h : Tidy sec t) : Written sec t := by
  induction hlen : t.length using Nat.strongRecOn generalizing sec t with
  | ind n ih =>
    subst hlen
    have hshorter : ∀ {sec' rest}, rest.length < t.length → Tidy sec' rest → Written sec' rest :=
      fun hlt hrest => ih _ hlt hrest rfl
    clear ih
    fun_cases scan sec t with
    | case1 =>
      have hends := h.ends
      rw [scan_nil] at hends
      cases sec with
      | false => exact ⟨[], trivial, rfl⟩
      | true => cases hends
    | case2 c t hq hc =>
      have hclosed := h.closed
      rw [scan_open hq hc] at hclosed
      cases hclosed
    | case3 c t hq r hc =>
      obtain ⟨b, rfl, -⟩ := closeLit_eq_some hq hc
      refine Written.literal hq hc h (hshorter ?_ (h.lit hq hc).1)
      rw [List.length_cons, List.length_append]
      omega
    | case4 c t hq ho =>
      obtain ⟨rfl, r, hr⟩ := ho
      obtain ⟨rfl, rfl⟩ : c = '<' ∧ t = '!' :: '!' :: r := by simpa using hr.symm
      exact Written.opn (hshorter (by simp; omega) h.opn)
    | case5 c t hq ho hcl =>
      obtain ⟨rfl, r, hr⟩ := hcl
      obtain ⟨rfl, rfl⟩ : c = '!' ∧ t = '!' :: '>' :: r := by simpa using hr.symm
      exact Written.cls (hshorter (by simp; omega) h.cls)
    | case6 c t hq ho hcl =>
      by_cases hcolon : sec = false ∧ c = ':'
      · obtain ⟨rfl, rfl⟩ := hcolon
        obtain ⟨name, rest, rfl, hapart, hrest⟩ := h.colon
        refine Written.var (hshorter ?_ hrest) hapart
        rw [List.length_cons, List.length_append]
        omega
      · have htidy := (h.chr (scan_chr hq ho hcl)).1
        refine Written.byte (hshorter (by simp) htidy) hq ?_ fun hsec hc => hcolon ⟨hsec, hc⟩
        intro hmarker
        cases sec with
        | false => exact ho ⟨rfl, hmarker⟩
        | true => exact hcl ⟨rfl, hmarker⟩

end

/-! ## What was meant is tidy -/

section

variable {sec : Bool} {tail : Text} {e : Element} {es : List Element} {item : Item}
  {items : List Item} {ps : List Piece}

theorem endsOutside_element (e : Element) :
    endsOutside sec (e.pieces ++ ps) = endsOutside sec ps := by
  cases e with
  | text t => exact endsOutside_text t
  | quoted value => rfl
  | dollar tag body => rfl

theorem endsOutside_elements (es : List Element) :
    endsOutside sec (es.flatMap Element.pieces ++ ps) = endsOutside sec ps := by
  induction es with
  | nil => rfl
  | cons e es ih => rw [List.flatMap_cons, List.append_assoc, endsOutside_element, ih]

theorem endsOutside_item (item : Item) :
    endsOutside false (item.pieces ++ ps) = endsOutside false ps := by
  cases item with
  | element e => exact endsOutside_element e
  | var name => exact endsOutside_text (':' :: name)
  | clean es =>
    show endsOutside true ((es.flatMap Element.pieces ++ [.cls]) ++ ps) = _
    rw [List.append_assoc, endsOutside_elements]
    rfl

/-- Inside a section nothing is glued. -/
theorem neverSkips_inside (es : List Element) :
    neverSkips tail true (es.flatMap Element.pieces ++ ps) = neverSkips tail true ps := by
  induction es with
  | nil => rfl
  | cons e es ih =>
    rw [List.flatMap_cons, List.append_assoc]
    cases e with
    | text t => exact (neverSkips_text (Or.inl rfl)).trans ih
    | quoted value => exact ih
    | dollar tag body => exact ih

theorem neverSkips_item (h : item.Apart (bytes ps)) :
    neverSkips [] false (item.pieces ++ ps) = neverSkips [] false ps := by
  cases item with
  | element e =>
    cases e with
    | text t => exact neverSkips_text (Or.inr h)
    | quoted value =>
      show neverSkips [] false (.lit (quote value) :: ps) = _
      rw [neverSkips, quoteGlued_quoted h]
      rfl
    | dollar tag body => rfl
  | var name =>
    show neverSkips [] false (.chr ':' :: (name.map Piece.chr ++ ps)) = _
    rw [neverSkips, nameGlued_variable h, neverSkips_text (Or.inr (colon_not_mem h.1))]
    simp
  | clean es =>
    show neverSkips [] false (.opn :: ((es.flatMap Element.pieces ++ [.cls]) ++ ps)) = _
    rw [neverSkips, contains_cls, List.append_assoc, neverSkips_inside]
    rfl

theorem ItemsWf.ends_skips (h : ItemsWf items) :
    endsOutside false (items.flatMap Item.pieces) = true ∧
      neverSkips [] false (items.flatMap Item.pieces) = true := by
  induction items with
  | nil => exact ⟨rfl, rfl⟩
  | cons item items ih =>
    obtain ⟨hapart, -, hitems⟩ := h
    rw [← bytes_items] at hapart
    rw [List.flatMap_cons, endsOutside_item, neverSkips_item hapart]
    exact ih hitems

theorem ItemsWf.tidy (h : ItemsWf items) : Tidy false (print items) := by
  obtain ⟨hends, hskips⟩ := h.ends_skips
  refine ⟨?_, ?_, ?_⟩ <;> rw [h.scan_print]
  · exact hends
  · exact hskips

end

/-! ## Which texts are templates -/

section

variable {κ : Type} [Caret κ]

theorem tidy_iff [LawfulCaret κ] (text : Text) : Tidy false text ↔
    (∃ st, parseTemplate κ text = some (.ok st)) ∧ sectionsClosed text = true ∧
      SkipsNoSection κ text := by
  have hfound := parseTemplate_eq_found (κ := κ) text
  have hskips := (skipsNoSection_eq (κ := κ) text).trans (skipsNoSection_textCaret text)
  by_cases hclosed : (scan false text).2 = []
  · rw [if_pos hclosed] at hfound
    rw [hclosed] at hskips
    constructor
    · intro h
      exact ⟨⟨_, hfound⟩, h.ends, hskips.mpr h.skips⟩
    · rintro ⟨-, hends, hskip⟩
      exact ⟨hclosed, hends, hskips.mp hskip⟩
  · rw [if_neg hclosed] at hfound
    obtain ⟨e, he⟩ := hfound
    constructor
    · intro h
      exact absurd h.closed hclosed
    · rintro ⟨⟨st, hst⟩, -⟩
      rw [he] at hst
      cases hst

/-- **The grammar of the templates.** A text is a well-formed template, written down, exactly if
    the parser accepts it, it closes the sections it opens and the parser begins no pass behind
    a section; and whatever template it is, the parser gives back what was meant. -/
theorem parseTemplate_print_iff [LawfulCaret κ] (text : Text) :
    ((∃ items, ItemsWf items ∧ print items = text) ↔
      (∃ st, parseTemplate κ text = some (.ok st)) ∧ sectionsClosed text = true ∧
        SkipsNoSection κ text) ∧
    ∀ items, ItemsWf items → print items = text →
      parseTemplate κ text = some (.ok ⟨erased items, variablesAt 0 items⟩) := by
  rw [← tidy_iff]
  refine ⟨⟨?_, Tidy.written⟩, ?_⟩
  · rintro ⟨items, hitems, rfl⟩
    exact hitems.tidy
  · rintro items hitems rfl
    have hfound := parseTemplate_eq_found (κ := κ) (print items)
    rw [hitems.scan_print] at hfound
    rw [if_pos rfl, bytes_items, hitems.foundVariables_print] at hfound
    exact hfound

/-- A text with a section, a string with a marker in it, and a name that the section's opener
    ends. -/
theorem parseTemplate_print_iff_sample :
    ((∃ items, ItemsWf items ∧ print items = ":a<!! ':b'!!>'<!!:c'".toList) ↔
      (∃ st, parseTemplate TextCaret ":a<!! ':b'!!>'<!!:c'".toList = some (.ok st)) ∧
        sectionsClosed ":a<!! ':b'!!>'<!!:c'".toList = true ∧
        SkipsNoSection TextCaret ":a<!! ':b'!!>'<!!:c'".toList) ∧
    ∀ items, ItemsWf items → print items = ":a<!! ':b'!!>'<!!:c'".toList →
      parseTemplate TextCaret ":a<!! ':b'!!>'<!!:c'".toList
        = some (.ok ⟨erased items, variablesAt 0 items⟩) :=
  parseTemplate_print_iff _

/-- The name runs on behind the section's opener, so nobody meant this text. -/
example : ¬ ∃ items, ItemsWf items ∧ print items = ":a<!!b!!>".toList := by
  intro h
  obtain ⟨items, hitems, hprint⟩ := h
  have hskips := hitems.tidy.skips
  rw [hprint] at hskips
  exact absurd hskips (by decide +kernel)

end

end OatppSqlite.Template
