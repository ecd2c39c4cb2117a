import Scriptlet.Diagram
import Scriptlet.Proofs.Pruning

/-!
# Drawings show their trees

A drawing leaves out a node whose name is taken and an edge one of whose ends is
missing. Neither happens when a tree is drawn whose ids are distinct: names of nodes
carry the id in decimal, names of details end in a suffix that no number has, and a part
of the drawing is added right before the edge that leads to it, when the part that this
edge comes from is long there.

The invariant is about a run of strokes and the parts known before it: the strokes come
in pairs, a part that is new and the edge to it from one of the known parts.

Results:
* `nodeName_inj`, `nodeName_ne_detailName`: different parts have different names.
* `adds_below`: the strokes below a node are such pairs.
* `Adds.foldl_add`: such strokes are added without loss.
* `shows_ofTree`: the drawing of a tree has all its nodes and their details in order, and
  to each of them but the root one edge, from its parent.
-/

namespace Scriptlet

/-! ## Parts of a drawing -/

/-- A part of the drawing of a tree: a node of the tree, or the text that it holds. -/
inductive Drawn where
  | node (n : Node)
  | detail (owner : Node) (text : String)

namespace Drawn

/-- The name under which a part is drawn. -/
def name : Drawn → String
  | node n => nodeName n.id
  | detail owner _ => detailName owner.id

/-- The text that a part is drawn with. -/
def label : Drawn → String
  | node n => n.form.label
  | detail _ text => text

/-- A part as a drawing keeps it. -/
def entry (d : Drawn) : String × String := (d.name, d.label)

/-- The stroke for a part. -/
def stroke (d : Drawn) : Stroke := .node d.name d.label

/-- A part stands directly above another: a node above its children and above the text
    that it holds. -/
inductive Above : Drawn → Drawn → Prop
  | child {n m : Node} : m ∈ n.children → Above (.node n) (.node m)
  | detail {n : Node} {text : String} : n.form.detail? = some text →
      Above (.node n) (.detail n text)

end Drawn

namespace Node

/-- The text that a node holds, as a part of the drawing. -/
def details (n : Node) : List Drawn := n.form.detail?.toList.map (.detail n)

/-- The parts of the drawing of a tree: its nodes, each before its children, and the text
    that a node holds right after the node. -/
def drawn (n : Node) : List Drawn := n.preorder.flatMap fun m => .node m :: m.details

theorem drawn_eq (n : Node) :
    n.drawn = .node n :: (n.details ++ n.children.flatMap drawn) := by
  unfold drawn
  rw [preorder_eq, List.flatMap_cons, List.flatMap_assoc]
  rfl

theorem length_drawn (n : Node) :
    n.drawn.length = n.size + n.preorder.countP fun m => m.form.detail?.isSome := by
  unfold drawn size
  generalize n.preorder = ns
  induction ns with
  | nil => rfl
  | cons m ns ih =>
    rw [List.flatMap_cons, List.length_append, ih, List.length_cons, List.countP_cons, details]
    cases m.form.detail? with
    | none => simp; omega
    | some text => simp; omega

/-- The strokes for a tree that hangs below a node with the given id. -/
def drawUnder (parent : Option Nat) (n : Node) : List Stroke :=
  (n.walk (fun m _ => some m.id) parent).flatMap fun (parent, m) => m.ownStrokes parent

/-- The strokes for what stands below a node. -/
def drawBelow (n : Node) : List Stroke :=
  (n.details.flatMap fun d => [d.stroke, .edge (nodeName n.id) d.name]) ++
    n.children.flatMap (drawUnder (some n.id))

theorem drawUnder_eq (parent : Option Nat) (n : Node) :
    n.drawUnder parent = .node (nodeName n.id) n.form.label ::
      (parent.toList.map (fun id => .edge (nodeName id) (nodeName n.id)) ++ n.drawBelow) := by
  have hdetails : (n.details.flatMap fun d => [d.stroke, Stroke.edge (nodeName n.id) d.name]) =
      n.form.detail?.toList.flatMap fun text =>
        [.node (detailName n.id) text, .edge (nodeName n.id) (detailName n.id)] := by
    rw [details, List.flatMap_map]
    rfl
  unfold drawUnder drawBelow
  rw [walk_eq, List.flatMap_cons, List.flatMap_assoc, hdetails]
  simp only [ownStrokes, List.cons_append, List.append_assoc]
  rfl

end Node

/-! ## Names -/

theorem toList_nodeName (id : Nat) :
    (nodeName id).toList = "Node".toList ++ Nat.toDigits 10 id := by
  have hdigits : (toString id).toList = Nat.toDigits 10 id := Nat.toList_repr
  rw [nodeName, String.toList_append, hdigits]

theorem toList_detailName (id : Nat) :
    (detailName id).toList = "Node".toList ++ (Nat.toDigits 10 id ++ "_detail".toList) := by
  rw [detailName, String.toList_append, toList_nodeName, List.append_assoc]

theorem toDigits_inj {a b : Nat} (h : Nat.toDigits 10 a = Nat.toDigits 10 b) : a = b := by
  rw [← Nat.ofDigitChars_ten_toDigits (n := a), h, Nat.ofDigitChars_ten_toDigits]

/-- Different nodes are drawn under different names. -/
theorem nodeName_inj {a b : Nat} (h : nodeName a = nodeName b) : a = b := by
  have hlist := congrArg String.toList h
  rw [toList_nodeName, toList_nodeName] at hlist
  exact toDigits_inj (List.append_cancel_left hlist)

theorem detailName_inj {a b : Nat} (h : detailName a = detailName b) : a = b := by
  have hlist := congrArg String.toList h
  rw [toList_detailName, toList_detailName] at hlist
  exact toDigits_inj (List.append_cancel_right (List.append_cancel_left hlist))

/-- No node is drawn under the name of a detail: a number has no underscore. -/
theorem nodeName_ne_detailName (a b : Nat) : nodeName a ≠ detailName b := by
  intro h
  have hlist := congrArg String.toList h
  rw [toList_nodeName, toList_detailName] at hlist
  have hdigits := List.append_cancel_left hlist
  have hmem : '_' ∈ Nat.toDigits 10 a := by simp [hdigits]
  exact absurd (Nat.isDigit_of_mem_toDigits (by decide) (by decide) hmem) (by decide)

/-- **The parts of a drawing have different names** if the nodes have different ids. -/
theorem nodup_names {n : Node} (h : n.ids.Nodup) : (n.drawn.map Drawn.name).Nodup := by
  have hown : ∀ m : Node, (Drawn.node m :: m.details).map Drawn.name =
      nodeName m.id :: m.form.detail?.toList.map fun _ => detailName m.id := by
    intro m
    rw [Node.details, List.map_cons, List.map_map]
    rfl
  unfold Node.drawn
  rw [List.map_flatMap]
  simp only [hown]
  refine List.nodup_flatMap.mpr ⟨fun m _ => ?_, ?_⟩
  · cases m.form.detail? with
    | none => simp
    | some text => simp [nodeName_ne_detailName]
  · refine (List.pairwise_map.mp h).imp fun {a b} hne => ?_
    intro name ha hb
    simp only [List.mem_cons, List.mem_map] at ha hb
    rcases ha with rfl | ⟨_, _, rfl⟩ <;> rcases hb with heq | ⟨_, _, heq⟩
    · exact hne (nodeName_inj heq)
    · exact nodeName_ne_detailName _ _ heq.symm
    · exact nodeName_ne_detailName _ _ heq.symm
    · exact hne (detailName_inj heq.symm)

/-! ## Strokes in pairs -/

/-- With the parts `known` drawn, the strokes draw the parts of `added`, each followed by
    the edge to it from the known part with the given number. -/
inductive Adds : List Drawn → List Stroke → List (Nat × Drawn) → Prop
  | nil (known : List Drawn) : Adds known [] []
  | cons {known : List Drawn} {strokes : List Stroke} {added : List (Nat × Drawn)} {i : Nat}
      {e d : Drawn} (source : known[i]? = some e) (above : e.Above d)
      (rest : Adds (known ++ [d]) strokes added) :
      Adds known (d.stroke :: .edge e.name d.name :: strokes) ((i, d) :: added)

namespace Adds

theorem append {known : List Drawn} {strokes strokes' : List Stroke}
    {added added' : List (Nat × Drawn)} (h : Adds known strokes added)
    (h' : Adds (known ++ added.map Prod.snd) strokes' added') :
    Adds known (strokes ++ strokes') (added ++ added') := by
  induction h with
  | nil known => simpa using h'
  | cons source above rest ih => exact .cons source above (ih (by simpa using h'))

/-- The parts that the edges come from: each stands above the part that is added and is
    drawn before it. -/
theorem exists_sources {known : List Drawn} {strokes : List Stroke}
    {added : List (Nat × Drawn)} (h : Adds known strokes added) :
    ∃ sources : List Drawn,
      strokes = (sources.zip (added.map Prod.snd)).flatMap (fun (e, d) =>
        [d.stroke, .edge e.name d.name]) ∧
      ∀ j i d, added[j]? = some (i, d) → ∃ e, sources[j]? = some e ∧ e.Above d ∧
        i < known.length + j ∧ (known ++ added.map Prod.snd)[i]? = some e := by
  induction h with
  | nil known => exact ⟨[], rfl, by simp⟩
  | @cons known strokes added i e d source above rest ih =>
    obtain ⟨sources, hstrokes, hsources⟩ := ih
    have hlt := (List.getElem?_eq_some_iff.mp source).1
    refine ⟨e :: sources, by simp [hstrokes], fun j i' d' hj => ?_⟩
    cases j with
    | zero =>
      cases hj
      refine ⟨e, rfl, above, by omega, ?_⟩
      rw [List.getElem?_append_left hlt, source]
    | succ j =>
      obtain ⟨e', hj', habove, hi, he'⟩ := hsources j i' d' hj
      rw [List.length_append, List.length_singleton] at hi
      exact ⟨e', hj', habove, by omega, by simpa using he'⟩

end Adds

/-- **The strokes below a node** draw what stands below it in the tree, if the node is
    drawn. -/
theorem adds_below (n : Node) : ∀ {known : List Drawn} {i : Nat}, known[i]? = some (.node n) →
    ∃ added, Adds known n.drawBelow added ∧ .node n :: added.map Prod.snd = n.drawn := by
  induction n using Node.induction with
  | h n ih =>
    intro known i hn
    have hdetails : Adds known (n.details.flatMap fun d => [d.stroke, .edge (nodeName n.id) d.name])
        (n.details.map (i, ·)) := by
      unfold Node.details
      cases htext : n.form.detail? with
      | none => exact .nil known
      | some text => exact .cons hn (.detail htext) (.nil _)
    have hchildren : ∀ (ms : List Node), (∀ m ∈ ms, m ∈ n.children) → ∀ known : List Drawn,
        known[i]? = some (.node n) → ∃ added,
          Adds known (ms.flatMap (Node.drawUnder (some n.id))) added ∧
            added.map Prod.snd = ms.flatMap Node.drawn := by
      intro ms
      induction ms with
      | nil => exact fun _ known _ => ⟨[], .nil known, rfl⟩
      | cons m ms ihms =>
        intro hms known hn
        rw [List.forall_mem_cons] at hms
        have hlast : (known ++ [.node m])[known.length]? = some (.node m) := by simp
        obtain ⟨below, hbelow, hdrawn⟩ := ih m hms.1 hlast
        have hm : Adds known (m.drawUnder (some n.id)) ((i, .node m) :: below) := by
          rw [Node.drawUnder_eq]
          exact .cons hn (.child hms.1) hbelow
        have hn' : (known ++ ((i, Drawn.node m) :: below).map Prod.snd)[i]? = some (.node n) := by
          rw [List.getElem?_append_left (List.getElem?_eq_some_iff.mp hn).1, hn]
        obtain ⟨rest, hrest, hdrawn'⟩ := ihms hms.2 _ hn'
        refine ⟨_, hm.append hrest, ?_⟩
        rw [List.map_append, List.map_cons, hdrawn, hdrawn', List.flatMap_cons]
    have hn' : (known ++ (n.details.map (i, ·)).map Prod.snd)[i]? = some (.node n) := by
      rw [List.getElem?_append_left (List.getElem?_eq_some_iff.mp hn).1, hn]
    obtain ⟨added, hadded, hdrawn⟩ := hchildren n.children (fun _ h => h) _ hn'
    refine ⟨_, hdetails.append hadded, ?_⟩
    rw [Node.drawn_eq, List.map_append, hdrawn, List.map_map]
    congr 2
    exact List.map_id _

/-! ## Adding strokes to a drawing -/

namespace Graph

variable {g : Graph} {known : List Drawn}

theorem find?_eq (hg : g.nodes.toList = known.map Drawn.entry) (name : String) :
    g.find? name = (known.map Drawn.name).findIdx? (· == name) := by
  have hnodes : g.nodes = (known.map Drawn.entry).toArray := by rw [← hg]
  unfold find?
  rw [hnodes, List.findIdx?_toArray, List.findIdx?_map, List.findIdx?_map]
  rfl

/-- The parts of a drawing are found under their names. -/
theorem find?_name (hg : g.nodes.toList = known.map Drawn.entry)
    (hnames : (known.map Drawn.name).Nodup) {i : Nat} {d : Drawn} (hd : known[i]? = some d) :
    g.find? d.name = some i := by
  have hname : (known.map Drawn.name)[i]? = some d.name := by simp [hd]
  obtain ⟨hi, hget⟩ := List.getElem?_eq_some_iff.mp hname
  rw [find?_eq hg, List.findIdx?_eq_some_iff_getElem]
  refine ⟨hi, beq_iff_eq.mpr hget, fun j hj heq => ?_⟩
  have hsame := hnames.getElem_inj_iff.mp ((beq_iff_eq.mp heq).trans hget.symm)
  omega

theorem find?_eq_none (hg : g.nodes.toList = known.map Drawn.entry) {name : String}
    (hname : name ∉ known.map Drawn.name) : g.find? name = none := by
  rw [find?_eq hg, List.findIdx?_eq_none_iff]
  intro other hother
  exact beq_false_of_ne fun heq => hname (heq ▸ hother)

/-- A new part and the edge to it are added. -/
theorem add_pair (hg : g.nodes.toList = known.map Drawn.entry) {i : Nat} {d e : Drawn}
    (hnames : ((known ++ [d]).map Drawn.name).Nodup) (he : known[i]? = some e) :
    (g.add d.stroke).add (.edge e.name d.name) =
      ⟨g.nodes.push d.entry, g.edges.push (i, known.length)⟩ := by
  have hnew : d.name ∉ known.map Drawn.name := by
    rw [List.map_append, List.nodup_append] at hnames
    exact fun hmem => hnames.2.2 _ hmem _ (by simp) rfl
  have hnode : g.add d.stroke = { g with nodes := g.nodes.push d.entry } := by
    simp [add, Drawn.stroke, Drawn.entry, find?_eq_none hg hnew]
  have hg' : (g.nodes.push d.entry).toList = (known ++ [d]).map Drawn.entry := by simp [hg]
  have hsource : find? { g with nodes := g.nodes.push d.entry } e.name = some i := by
    refine find?_name hg' hnames ?_
    rw [List.getElem?_append_left (List.getElem?_eq_some_iff.mp he).1, he]
  have htarget : find? { g with nodes := g.nodes.push d.entry } d.name = some known.length :=
    find?_name hg' hnames (by simp)
  rw [hnode]
  simp only [add, hsource, htarget]

end Graph

/-- **Strokes in pairs are added without loss** if all names are different. -/
theorem Adds.foldl_add {known : List Drawn} {strokes : List Stroke}
    {added : List (Nat × Drawn)} (h : Adds known strokes added)
    (hnames : ((known ++ added.map Prod.snd).map Drawn.name).Nodup) {g : Graph}
    (hg : g.nodes.toList = known.map Drawn.entry) :
    (strokes.foldl Graph.add g).nodes.toList =
        (known ++ added.map Prod.snd).map Drawn.entry ∧
      (strokes.foldl Graph.add g).edges.toList =
        g.edges.toList ++ (added.map Prod.fst).zipIdx known.length := by
  induction h generalizing g with
  | nil known => simpa using hg
  | @cons known strokes added i e d source above rest ih =>
    have hnames' : ((known ++ [d]).map Drawn.name).Nodup := by
      refine hnames.sublist (List.Sublist.map _ ?_)
      simp
    simp only [List.foldl_cons, Graph.add_pair hg hnames' source]
    obtain ⟨hnodes, hedges⟩ := @ih (by simpa using hnames)
      ⟨g.nodes.push d.entry, g.edges.push (i, known.length)⟩ (by simp [hg])
    refine ⟨by simpa using hnodes, ?_⟩
    rw [hedges]
    simp

/-! ## Drawings of trees -/

/-- Of a numbered list one pair has a given number. -/
theorem filter_zipIdx {α : Type} {l : List α} {j : Nat} {a : α} (h : l[j]? = some a) (k : Nat) :
    (l.zipIdx k).filter (fun e => e.2 = k + j) = [(a, k + j)] := by
  induction l generalizing j k with
  | nil => cases h
  | cons b l ih =>
    rw [List.zipIdx_cons]
    cases j with
    | zero =>
      cases h
      have hrest : (l.zipIdx (k + 1)).filter (fun e => e.2 = k) = [] := by
        refine List.filter_eq_nil_iff.mpr fun e he heq => ?_
        have := List.le_snd_of_mem_zipIdx he
        have := of_decide_eq_true heq
        omega
      simpa using hrest
    | succ j =>
      have hrest := ih h (k + 1)
      rw [Nat.add_assoc, Nat.add_comm 1 j] at hrest
      rw [List.filter_cons_of_neg (by simp), hrest]

/-- A drawing shows a tree without loss. After the root, `sources` are the parts that
    stand above the parts of the drawing. -/
structure Graph.Shows (g : Graph) (n : Node) (sources : List Drawn) : Prop where
  /-- the nodes are all nodes of the tree, each before its children and followed by its
      detail -/
  nodes : g.nodes.toList = n.drawn.map Drawn.entry
  /-- no edge leads to the root -/
  root : ∀ i, (i, 0) ∉ g.edges
  /-- one edge leads to every other node, from the part above it, which is there earlier -/
  incoming : ∀ j d, n.drawn[j + 1]? = some d → ∃ e i, sources[j]? = some e ∧ e.Above d ∧
    i ≤ j ∧ n.drawn[i]? = some e ∧ g.edges.toList.filter (fun e => e.2 = j + 1) = [(i, j + 1)]

/-- **A tree is drawn without loss** if its ids are distinct. The strokes are those for
    its nodes, each before its children and followed by its detail, and after each of them
    but the root the edge to it from the part above it. The drawing has a node for each of
    them, and its edges are the edge to each of them but the root. -/
theorem shows_ofTree {n : Node} (hids : n.ids.Nodup) :
    let g := Graph.ofTree n
    g.nodes.size = n.size + n.preorder.countP (fun m => m.form.detail?.isSome) ∧
      g.edges.size = g.nodes.size - 1 ∧
      ∃ sources : List Drawn, g.Shows n sources ∧
        n.draw = .node (nodeName n.id) n.form.label ::
          (sources.zip n.drawn.tail).flatMap (fun (e, d) => [d.stroke, .edge e.name d.name]) := by
  intro g
  have hroot : [Drawn.node n][0]? = some (.node n) := rfl
  obtain ⟨added, hadded, hdrawn⟩ := adds_below n hroot
  have hdraw : n.draw = (Drawn.node n).stroke :: n.drawBelow := n.drawUnder_eq none
  have hnames : ((([Drawn.node n] ++ added.map Prod.snd)).map Drawn.name).Nodup := by
    rw [List.singleton_append, hdrawn]
    exact nodup_names hids
  have hg : g = n.drawBelow.foldl Graph.add ⟨#[(Drawn.node n).entry], #[]⟩ := by
    have hroot : Graph.empty.add (Drawn.node n).stroke = ⟨#[(Drawn.node n).entry], #[]⟩ := by
      simp [Graph.add, Graph.empty, Graph.find?, Drawn.stroke, Drawn.entry]
    rw [← hroot, ← List.foldl_cons, ← hdraw]
    rfl
  obtain ⟨hnodes, hedges⟩ :=
    hadded.foldl_add hnames (g := ⟨#[(Drawn.node n).entry], #[]⟩) rfl
  rw [← hg] at hnodes hedges
  rw [List.singleton_append, hdrawn] at hnodes
  rw [List.nil_append, List.length_singleton] at hedges
  have hlength : n.drawn.length = added.length + 1 := by rw [← hdrawn]; simp
  have hsize : g.nodes.size = n.drawn.length := by
    rw [← Array.length_toList, hnodes, List.length_map]
  have hsize' : g.edges.size = added.length := by
    rw [← Array.length_toList, hedges]
    simp
  obtain ⟨sources, hstrokes, hsources⟩ := hadded.exists_sources
  rw [List.singleton_append, hdrawn] at hsources
  have htail : n.drawn.tail = added.map Prod.snd := by rw [← hdrawn]; rfl
  refine ⟨hsize.trans n.length_drawn, by omega, sources, ⟨hnodes, ?_, ?_⟩, ?_⟩
  · intro i hi
    rw [← Array.mem_toList_iff, hedges] at hi
    have := List.le_snd_of_mem_zipIdx hi
    omega
  · intro j d hd
    rw [← hdrawn, List.getElem?_cons_succ, List.getElem?_map, Option.map_eq_some_iff] at hd
    obtain ⟨⟨i, _⟩, hj, rfl⟩ := hd
    obtain ⟨e, he, habove, hi, hn⟩ := hsources j i _ hj
    refine ⟨e, i, he, habove, by simp at hi; omega, hn, ?_⟩
    rw [hedges, Nat.add_comm j 1]
    exact filter_zipIdx (by simp [hj]) 1
  · rw [hdraw, htail, hstrokes]
    rfl

/-- The drawing of `print(x + 1)`: six nodes, of which three hold a text. -/
theorem shows_ofTree_of_print :
    let sum : Node := ⟨2, 1, .arith .add ⟨0, 1, .read "x"⟩ ⟨1, 1, .int 1⟩⟩
    let n : Node := ⟨5, 1, .program ⟨4, 1, .block [⟨3, 1, .print sum⟩]⟩⟩
    n.ids.Nodup ∧ (Graph.ofTree n).nodes.size = 9 ∧ (Graph.ofTree n).edges.size = 8 ∧
      ∃ sources, (Graph.ofTree n).Shows n sources := by
  intro sum n
  have hids : n.ids.Nodup := by decide +kernel
  have hparts : n.size + n.preorder.countP (fun m => m.form.detail?.isSome) = 9 := by
    decide +kernel
  obtain ⟨hnodes, hedges, sources, hshows, -⟩ := shows_ofTree hids
  rw [hparts] at hnodes
  rw [hnodes] at hedges
  exact ⟨hids, hnodes, hedges, sources, hshows⟩

end Scriptlet
