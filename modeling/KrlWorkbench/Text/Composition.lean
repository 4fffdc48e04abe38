import KrlWorkbench.Text.CodeTable

/-!
# Letters and the marks on them

One letter can be written as one character or as a base with marks behind it.  `composed` brings
a text to the form with as few characters as possible: every character is taken apart, the marks
behind a base are put in the order of their classes, and what can be joined is joined again.
Syllables of the Korean script are joined by a rule, everything else by a table.
-/

namespace KrlWorkbench.Text

/-! ## Marks -/

/-- Marks by class: a class, and how many code points are not in it, how many behind them are, and
so on in turn. -/
def markTable : List (Nat × List Nat) := [
  (1, [0x31AB98158ED9568AEE11ECD9D2321A3421FD971D11CEBB51CEC]), (6, [0x22EFFE8]),
  (7, [0x149921A912EA11DB11AE12F816BC8E118EDFB11A812E915BFC11DFA11FF13FF11FF11FF11FF11FF14CFC,
    0x11CE88F11FFE1498168A13EE13FC11FC]), (8, [0x238AB9]),
  (9, [0x21CD13CB11A9D12BD13E23BB922EC139911FF11DF11FC12821DD11FF11FF11FF11FF11FF11FF11FF14D9D,
    0x1E9328811CA12EC11EC129B21F917911E1591388E15F9A913EE14ED11DC129E12AF14D17DA8E118E9B218E,
    0x148FDC26D911A9248C16CD11A912A11AB12C9248B149D11EC11EE11FF13FC11FF1]), (10, [0x12EE8]),
  (11, [0x12EE9]), (12, [0x12EEA]), (13, [0x12EEB]), (14, [0x12EEC]), (15, [0x12EED]),
  (16, [0x12EEE]), (17, [0x12EEF]), (18, [0x11E12EF8]), (19, [0x22EF9]), (20, [0x12EFB]),
  (21, [0x12EFC]), (22, [0x12EFD]), (23, [0x12EFF]), (24, [0x12F89]), (25, [0x12F8A]),
  (26, [0x11FDCBE]), (27, [0x11ACC1399B]), (28, [0x11ACC1399C]), (29, [0x11ACC1399D]),
  (30, [0x16D138B8]), (31, [0x16D138B9]), (32, [0x16D138BA]), (33, [0x139A9]), (34, [0x139AA]),
  (35, [0x139E8]), (36, [0x13CA9]), (84, [0x169AD]), (91, [0x169AE]), (103, [0x278F8]),
  (107, [0x47998]), (118, [0x27AF8]), (122, [0x47B98]), (129, [0x17DE9]), (130, [0x124717DEA]),
  (132, [0x17DEC]), (202, [0x11DACF2421CC9]), (214, [0x11EF9E]), (216, [0x5723C98DB168BD11CBB]),
  (218, [0x1198DF11EFFA]),
  (220, [0x31BB11A12D91111111311213212118B1216128B1215229F13A12661414118EE22442331A451B2425241CAE,
    0x141713AC11D4255D812C91522211266D11CE13BC14ADD138E129E1113B22F8D11AF221633121211F56B37D,
    0x119DCA27181C8FED1116A4113218E328AE12DB15C13CDC13CA11F9F759DEA168E318C8FB4311BD81113159,
    0x71BC81488]), (222, [0x11BBEB119E9B12A12EBA]), (224, [0x2388DE]), (226, [0x13D8DDD]),
  (228, [0x1198EA22D9D119BFA12EDE]),
  (230, [0x1113112132121118B2222114271EF215227B1819B12C1221266231449A54AB1D71314333313123582D1C88,
    0x181BD13BC15BC129FD31FAD2222E8B12D92111A95221363121221E555A4321D9513119144A1172C821111,
    0x2481A417C9DF483DE35FFE16111514234221BA912154D42171238E2312B142735BC7112BC4152242656B,
    0x13D953719CB35FB1116D1132BB24FD5189418FE12DC15813AAC52D8E27759DBE1125232116FE2A7DE21A8,
    0x61DAD13FE17FF47D15EF72C811CC51217229176EFB32AC44856B99E75BBA9]),
  (232, [0x23BAAFF1198ED11DABD17D1411CAD]), (233, [0x11DAB9121211DBC]), (234, [0x11D9DB2121DBD]),
  (240, [0x11D8D])]

def markClasses : List (Nat × List (Nat × Nat)) :=
  markTable.map fun (value, stretches) => (value, stretchRanges 0 (unpacked stretches))

/-- The class of a mark; zero for a character that is none. -/
def markClass (c : Char) : Nat :=
  let row := markClasses.find? fun row =>
    row.2.any fun range => range.1 ≤ c.toNat && c.toNat ≤ range.2
  (row.map (·.1)).getD 0

/-! ## Joining and parting -/

/-- What joins: a second character, then first characters and the results in turn. -/
def jointTable : String := "
300 AÀEÈIÌNǸOÒUÙWẀYỲaàeèiìnǹoòuùwẁyỳ¨῭ÂẦÊỀÔỒÜǛâầêềôồüǜĂẰăằĒḔēḕŌṐōṑƠỜơờƯỪưừΑᾺΕῈΗῊΙῚΟῸΥῪΩῺαὰεὲηὴιὶ
300 οὸυὺωὼϊῒϋῢЕЀИЍеѐиѝἀἂἁἃἈἊἉἋἐἒἑἓἘἚἙἛἠἢἡἣἨἪἩἫἰἲἱἳἸἺἹἻὀὂὁὃὈὊὉὋὐὒὑὓὙὛὠὢὡὣὨὪὩὫ᾿῍῾῝
301 AÁCĆEÉGǴIÍKḰLĹMḾNŃOÓPṔRŔSŚUÚWẂYÝZŹaácćeégǵiíkḱlĺmḿnńoópṕrŕsśuúwẃyýzź¨΅ÂẤÅǺÆǼÇḈÊẾÏḮÔỐÕṌØǾÜǗâấ
301 åǻæǽçḉêếïḯôốõṍøǿüǘĂẮăắĒḖēḗŌṒōṓŨṸũṹƠỚơớƯỨưứΑΆΕΈΗΉΙΊΟΌΥΎΩΏαάεέηήιίοόυύωώϊΐϋΰϒϓГЃКЌгѓкќἀἄἁἅἈἌἉἍ
301 ἐἔἑἕἘἜἙἝἠἤἡἥἨἬἩἭἰἴἱἵἸἼἹἽὀὄὁὅὈὌὉὍὐὔὑὕὙὝὠὤὡὥὨὬὩὭ᾿῎῾῞
302 AÂCĈEÊGĜHĤIÎJĴOÔSŜUÛWŴYŶZẐaâcĉeêgĝhĥiîjĵoôsŝuûwŵyŷzẑẠẬạậẸỆẹệỌỘọộ
303 AÃEẼIĨNÑOÕUŨVṼYỸaãeẽiĩnñoõuũvṽyỹÂẪÊỄÔỖâẫêễôỗĂẴăẵƠỠơỡƯỮưữ
304 AĀEĒGḠIĪOŌUŪYȲaāeēgḡiīoōuūyȳÄǞÆǢÕȬÖȪÜǕäǟæǣõȭöȫüǖǪǬǫǭȦǠȧǡȮȰȯȱΑᾹΙῙΥῩαᾱιῑυῡИӢУӮиӣуӯḶḸḷḹṚṜṛṝ
306 AĂEĔGĞIĬOŎUŬaăeĕgğiĭoŏuŭȨḜȩḝΑᾸΙῘΥῨαᾰιῐυῠАӐЕӖЖӁИЙУЎаӑеӗжӂийуўẠẶạặ
307 AȦBḂCĊDḊEĖFḞGĠHḢIİMṀNṄOȮPṖRṘSṠTṪWẆXẊYẎZŻaȧbḃcċdḋeėfḟgġhḣmṁnṅoȯpṗrṙsṡtṫwẇxẋyẏzżŚṤśṥŠṦšṧſẛṢṨṣṩ
307 𐗒𐗉𐗚𐗤
308 AÄEËHḦIÏOÖUÜWẄXẌYŸaäeëhḧiïoötẗuüwẅxẍyÿÕṎõṏŪṺūṻΙΪΥΫιϊυϋϒϔІЇАӒЕЁЖӜЗӞИӤОӦУӰЧӴЫӸЭӬаӓеёжӝзӟиӥоӧуӱ
308 чӵыӹэӭіїӘӚәӛӨӪөӫ
309 AẢEẺIỈOỎUỦYỶaảeẻiỉoỏuủyỷÂẨÊỂÔỔâẩêểôổĂẲăẳƠỞơởƯỬưử
30A AÅUŮaåuůwẘyẙ
30B OŐUŰoőuűУӲуӳ
30C AǍCČDĎEĚGǦHȞIǏKǨLĽNŇOǑRŘSŠTŤUǓZŽaǎcčdďeěgǧhȟiǐjǰkǩlľnňoǒrřsštťuǔzžÜǙüǚƷǮʒǯ
30F AȀEȄIȈOȌRȐUȔaȁeȅiȉoȍrȑuȕѴѶѵѷ
311 AȂEȆIȊOȎRȒUȖaȃeȇiȋoȏrȓuȗ
313 ΑἈΕἘΗἨΙἸΟὈΩὨαἀεἐηἠιἰοὀρῤυὐωὠ
314 ΑἉΕἙΗἩΙἹΟὉΡῬΥὙΩὩαἁεἑηἡιἱοὁρῥυὑωὡ
31B OƠUƯoơuư
323 AẠBḄDḌEẸHḤIỊKḲLḶMṂNṆOỌRṚSṢTṬUỤVṾWẈYỴZẒaạbḅdḍeẹhḥiịkḳlḷmṃnṇoọrṛsṣtṭuụvṿwẉyỵzẓƠỢơợƯỰưự
324 UṲuṳ
325 AḀaḁ
326 SȘTȚsștț
327 CÇDḐEȨGĢHḨKĶLĻNŅRŖSŞTŢcçdḑeȩgģhḩkķlļnņrŗsştţ
328 AĄEĘIĮOǪUŲaąeęiįoǫuų
32D DḒEḘLḼNṊTṰUṶdḓeḙlḽnṋtṱuṷ
32E HḪhḫ
330 EḚIḬUṴeḛiḭuṵ
331 BḆDḎKḴLḺNṈRṞTṮZẔbḇdḏhẖkḵlḻnṉrṟtṯzẕ
338 <≮=≠>≯←↚→↛↔↮⇐⇍⇒⇏⇔⇎∃∄∈∉∋∌∣∤∥∦∼≁≃≄≅≇≈≉≍≭≡≢≤≰≥≱≲≴≳≵≶≸≷≹≺⊀≻⊁≼⋠≽⋡⊂⊄⊃⊅⊆⊈⊇⊉⊑⋢⊒⋣⊢⊬⊨⊭⊩⊮⊫⊯⊲⋪⊳⋫⊴⋬⊵⋭
342 ¨῁αᾶηῆιῖυῦωῶϊῗϋῧἀἆἁἇἈἎἉἏἠἦἡἧἨἮἩἯἰἶἱἷἸἾἹἿὐὖὑὗὙὟὠὦὡὧὨὮὩὯ᾿῏῾῟
345 ΑᾼΗῌΩῼάᾴήῄαᾳηῃωῳώῴἀᾀἁᾁἂᾂἃᾃἄᾄἅᾅἆᾆἇᾇἈᾈἉᾉἊᾊἋᾋἌᾌἍᾍἎᾎἏᾏἠᾐἡᾑἢᾒἣᾓἤᾔἥᾕἦᾖἧᾗἨᾘἩᾙἪᾚἫᾛἬᾜἭᾝἮᾞἯᾟὠᾠὡᾡὢᾢὣᾣὤᾤ
345 ὥᾥὦᾦὧᾧὨᾨὩᾩὪᾪὫᾫὬᾬὭᾭὮᾮὯᾯὰᾲὴῂὼῲᾶᾷῆῇῶῷ
653 اآ
654 اأوؤيئہۂےۓەۀ
655 اإ
93C नऩरऱळऴ
9BE েো
9D7 েৌ
B3E େୋ
B56 େୈ
B57 େୌ
BBE ெொேோ
BD7 ஒஔெௌ
C56 ెై
CC2 ೆೊ
CD5 ಿೀೆೇೊೋ
CD6 ೆೈ
D3E െൊേോ
D57 െൌ
DCA ෙේොෝ
DCF ෙො
DDF ෙෞ
102E ဥဦ
1B35 ᬅᬆᬇᬈᬉᬊᬋᬌᬍᬎᬑᬒᬺᬻᬼᬽᬾᭀᬿᭁᭂᭃ
3099 うゔかがきぎくぐけげこごさざしじすずせぜそぞただちぢつづてでとどはばひびふぶへべほぼゝゞウヴカガキギクグケゲコゴサザシジスズセゼソゾタダチヂツヅテデトドハバヒビフブヘベホボワヷヰヸヱヹ
3099 ヲヺヽヾ
309A はぱひぴふぷへぺほぽハパヒピフプヘペホポ
110BA 𑂙𑂚𑂛𑂜𑂥𑂫
11127 𑄱𑄮𑄲𑄯
1133E 𑍇𑍋
11357 𑍇𑍌
113B8 𑏅𑎸
113BB 𑎄𑎅
113C2 𑎋𑎎𑏅𑏂
113C9 𑎂𑎃𑎐𑎑𑏅𑏉
114B0 𑒹𑒼
114BA 𑒹𑒻
114BD 𑒹𑒾
115AF 𑖸𑖺𑖹𑖻
11930 𑤵𑤸
1611E 𖄡𖄞
1611F 𖄦𖄡𖄦𖄢𖄧𖄩𖄤
16120 𖄨𖄡𖄨
16129 𖄡𖄩
16D67 𖵣𖵪𖵨𖵩𖵪"

/-- A character that is two others joined. -/
structure Joint where
  first : Nat
  second : Nat
  result : Nat

def jointsWith (second : Nat) : Text → List Joint
  | first :: result :: rest => ⟨first.toNat, second, result.toNat⟩ :: jointsWith second rest
  | _ => []

def joints : List Joint :=
  (tableRows jointTable).flatMap fun
    | [second, pairs] => jointsWith (hexNumber second) pairs
    | _ => []

/-- Joins two parts of a Korean syllable: a lead and a vowel, or both of them and a tail. -/
def joinedSyllable? (first second : Nat) : Option Nat :=
  if 0x1100 ≤ first && first < 0x1113 && 0x1161 ≤ second && second < 0x1176 then
    some (0xAC00 + ((first - 0x1100) * 21 + (second - 0x1161)) * 28)
  else if 0xAC00 ≤ first && first < 0xD7A4 && (first - 0xAC00) % 28 == 0
      && 0x11A8 ≤ second && second < 0x11C3 then
    some (first + (second - 0x11A7))
  else none

/-- The two parts of a Korean syllable. -/
def partedSyllable? (n : Nat) : Option (Nat × Nat) :=
  if 0xAC00 ≤ n && n < 0xD7A4 then
    let index := n - 0xAC00
    if index % 28 == 0 then some (0x1100 + index / 588, 0x1161 + index % 588 / 28)
    else some (n - index % 28, 0x11A7 + index % 28)
  else none

/-- The character that two others join to. -/
def joined? (first second : Char) : Option Char :=
  let joint := joints.find? fun joint =>
    joint.first == first.toNat && joint.second == second.toNat
  ((joint.map (·.result)) <|> joinedSyllable? first.toNat second.toNat).map Char.ofNat

/-- The two characters that join to one. -/
def parted? (c : Char) : Option (Char × Char) :=
  let joint := joints.find? fun joint => joint.result == c.toNat
  ((joint.map fun joint => (joint.first, joint.second)) <|> partedSyllable? c.toNat).map
    fun pair => (Char.ofNat pair.1, Char.ofNat pair.2)

/-- A character taken apart, `depth` times at most; no character is joined more than three
times. -/
def apart (c : Char) : (depth : Nat) → Text
  | 0 => [c]
  | depth + 1 =>
    match parted? c with
    | some (first, second) => apart first depth ++ [second]
    | none => [c]

/-! ## Composition -/

/-- Puts a character behind those before it, last first; a mark goes in front of the marks of
higher classes. -/
def addMark (c : Char) : Text → Text
  | [] => [c]
  | last :: before =>
    if markClass c != 0 && markClass c < markClass last then last :: addMark c before
    else c :: last :: before

/-- A text in the course of joining: what is done, the base that may still be joined to, and the
marks behind it. All three are last first. -/
structure Joining where
  done : Text
  base : Option Char
  marks : Text

/-- The text so far, last first. -/
def Joining.all (j : Joining) : Text :=
  j.marks ++ j.base.toList ++ j.done

/-- Takes in one character. It joins the base unless a mark of its class or a higher one stands
between them. -/
def Joining.add (j : Joining) (c : Char) : Joining :=
  let isFree := j.marks.head?.all fun last => markClass last < markClass c
  match if isFree then j.base.bind (joined? · c) else none with
  | some whole => { j with base := some whole }
  | none =>
    if markClass c == 0 then ⟨j.all, some c, []⟩ else { j with marks := c :: j.marks }

/-- The text with every letter in as few characters as possible. -/
def composed (text : Text) : Text :=
  let parts := text.flatMap (apart · 4)
  let ordered := (parts.foldl (fun before c => addMark c before) []).reverse
  (ordered.foldl Joining.add ⟨[], none, []⟩).all.reverse

end KrlWorkbench.Text
