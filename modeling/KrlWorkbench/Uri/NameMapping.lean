import KrlWorkbench.Text.Folding

/-!
# Characters of host names

Before host names are compared each character is mapped: capital letters to small ones, variants
of a character to the plain character, and characters that cannot be seen to nothing.
-/

namespace KrlWorkbench.HostName

open Text

def vanishingRanges : Array (Nat × Nat) := rangeTable [
  0x3E838AFE8D181AB9F41BEBFF12C813DF281CEABB118BEC6551AC13FFB51AD239AB2789F11AC912DD]

/-- Ranges that are mapped in order: the step, how far the last code point is behind the first, what
the first becomes, and the first code points of the ranges that are alike in this. -/
def shiftTable : String := "
2 8 65 1D31
2 6 68 1D34
1 2 3B2 1D5D
1 2 268 1DA4
1 3 272 1DAE
1 2 290 1DBC
1 5 34 2074
1 9 30 2080 1CCF0 1D7CE 1D7D8 1D7E2 1D7EC 1D7F6 1FBF0
1 3 6B 2096
1 2 70 2119
1 3 5D0 2135
1 8 31 2460
1 19 61 24B6 24D0 FF21 1CCD6 1D400 1D41A 1D434 1D468 1D482 1D4D0 1D4EA 1D51E 1D552 1D56C 1D586
1 19 61 1D5A0 1D5BA 1D5D4 1D5EE 1D608 1D622 1D63C 1D656 1D670 1D68A 1F130
1 2 1103 3137 FFA7
1 5 11B0 313A FFAA
1 2 1106 3141 FFB1
1 9 1109 3145 FFB5
1 14 1161 314F
1 4 112B 3178
1 2 1157 3184
1 2 1105 3263
1 4 110E 3269
1 5 30CA 32E4 FF85
1 4 30DE 32EE FF8F
1 5 30E8 32F5 FF96
1 3 30EF 32FB
1 2 5DB FB24
1 3 300C FE41
1 1F 21 FF01
1 23 5B FF3B
1 5 1161 FFC2
1 5 1167 FFCA
1 5 116D FFD2
1 2 1173 FFDA
1 3 2190 FFE9
1 2 1C0 107B6
2 18 61 1D44E
2 4 62 1D44F 1D505 1D539
2 10 6A 1D457
1 3 6E 1D4A9
1 7 73 1D4AE
1 3 61 1D4B6
2 14 66 1D4BB
2 4 69 1D4BE
2 8 71 1D4C6
1 7 6A 1D50D
1 6 73 1D516 1D54A
2 A 65 1D53C
1 10 3B1 1D6A8 1D6C2 1D6E2 1D6FC 1D71C 1D736 1D756 1D770 1D790 1D7AA
1 6 3C3 1D6BA 1D6D4 1D6F4 1D70E 1D72E 1D748 1D768 1D782 1D7A2 1D7BC
1 8 430 1E030 1E051
1 2 43A 1E039
1 A 43E 1E03C
1 5 443 1E05F
1 3 643 1EE0A 1EE2A
1 2 644 1EE8B 1EEAB"

/-- What the code points from each of the first ones of a row on become, a character each. -/
def letterTable : String := "
B2 23
B9 1o
2B0 hɦjrɹɻʁwy
2E0 ɣlsxʕ
3D2 υύϋ
1D2C aæb
1D3C oȣprtuwaɐɑᴂbdeəɛɜg
1D4F kmŋoɔᴖᴗptuᴝɯvᴥ
1D60 φχiruvβγρφχ
1D9B ɒcɕðɜfɟɡɥ
1DA7 ᵻʝɭᶅʟɱɰ
1DB2 ɸʂʃƫʉʊᴜʋʌz
2070 0i
207A +−=()n
208A +−=()
2090 aeoxəh
209A pst
210A ghhhhħiill
211C rr
212C bc
212F eefⅎmo
2145 ddeij
2329 〈〉
2C7C jv
2F00 一丨丶丿乙亅二亠人儿入八冂冖冫几凵刀力勹匕匚匸十卜卩厂厶
2F1C 又口囗土士夂夊夕大女子宀寸小尢尸屮山巛工己巾干幺广廴廾弋弓彐彡彳心戈戶手支攴文斗斤方无日曰月木欠止歹殳毋比毛氏气水火爪父爻爿片牙牛犬玄玉瓜瓦甘生用田疋疒癶白皮皿目矛矢石示禸禾穴立竹米糸缶
2F79 网羊羽老而耒耳聿肉臣自至臼舌舛舟艮色艸虍虫血行衣襾見角言谷豆豕豸貝赤走足身車辛辰辵邑酉釆里金長門阜隶隹雨靑非面革韋韭音頁風飛食首香馬骨高髟鬥鬯鬲鬼魚鳥鹵鹿麥麻黃黍黑黹黽鼎鼓鼠鼻齊齒龍龜龠
3038 十卄卅
3131 FFA1 ᄀᄁᆪᄂᆬᆭ
3165 ᄔᄕᇇᇈᇌᇎᇓᇗᇙᄜᇝᇟᄝᄞᄠᄢᄣᄧᄩ
317D ᄲᄶᅀᅇᅌᇱᇲ
3187 ᆄᆅᆈᆑᆒᆔᆞᆡ
3192 一二三四上中下甲乙丙丁天地人
3260 ᄀᄂᄃ
3266 ᄉᄋᄌ
326E 가나다라마바사아자차카타파하
3280 一二三四五六七八九十月火水木金土日株有社名特財祝労秘男女適優印注項休写正上中下左右医宗学監企資協夜
32D0 アイウエオカキクケコサシスセソタチツテト
32EA FF8B ヒフヘホ
32F3 FF94 ヤユ
A69C ъь
A7F2 cfq
A7F8 ħœ
AB5C ꜧꬷɫꭒ
F900 豈更車賈滑串句龜龜契金喇奈懶癩羅蘿螺裸邏樂洛烙珞落酪駱亂卵欄爛蘭鸞嵐濫藍襤拉臘蠟廊朗浪狼郎來冷勞擄櫓爐盧老蘆虜路露魯鷺碌祿綠菉錄鹿論壟弄籠聾牢磊賂雷壘屢樓淚漏累縷陋勒肋
F954 凜凌稜綾菱陵讀拏樂諾丹寧怒率異北磻便復不泌數索參塞省葉說殺辰沈拾若掠略亮兩凉梁糧良諒量勵呂女廬旅濾礪閭驪麗黎力曆歷轢年憐戀撚漣煉璉秊練聯輦蓮連鍊列劣咽烈裂說廉念捻殮簾獵令囹寧嶺怜玲瑩羚聆
F9B1 鈴零靈領例禮醴隸惡了僚寮尿料樂燎療蓼遼龍暈阮劉杻柳流溜琉留硫紐類六戮陸倫崙淪輪律慄栗率隆利吏履易李梨泥理痢罹裏裡里離匿溺吝燐璘藺隣鱗麟林淋臨立笠粒狀炙識什茶刺切度拓糖宅洞暴輻行降見廓兀嗀
FA15 凞猪益礼神祥福靖精羽
FA25 逸都
FA2A 飯飼館鶴郞隷侮僧免勉勤卑喝嘆器塀墨層屮悔慨憎懲敏既暑梅海渚漢煮爫琢碑社祉祈祐祖祝禍禎穀突節練縉繁署者臭艹艹著褐視謁謹賓贈辶逸難響頻恵𤋮舘
FA70 並况全侀充冀勇勺喝啕喙嗢塚
FA7D 墳奄奔婢嬨廒廙彩徭惘慎愈憎慠懲戴揄搜摒敖晴朗望杖歹殺流滛滋漢瀞煮瞧爵犯猪瑱甆画瘝瘟益盛直睊着磌窱節类絛練缾者荒華蝹襁覆視調諸請謁諾諭謹變贈輸遲醙鉶陼難靖韛響頋頻鬒龜𢡊𢡄𣏕㮝䀘䀹𥉉𥳐𧻓齃龎
FB20 עאדה
FB27 רת+
FB55 ٻپپپپڀڀڀڀٺٺٺٺٿٿٿٿٹٹٹٹڤڤڤڤڦڦڦڦڄڄڄڄڃڃڃڃچچچچڇڇڇڇڍڍڌڌڎڎڈڈژژڑڑککککگگگگڳڳڳڳڱڱڱڱںںڻڻڻڻۀۀہہہہھھھھےےۓۓ
FBD3 ڭڭڭڭۇۇۆۆۈۈ
FBDE ۋۋۅۅۉۉېېېېىى
FBFC یییی
FE10 ,、
FE13 :;!?〖〗
FE31 —–__()
FE39 〔〕【】《》〈〉
FE47 []
FE4D ___,、
FE54 ;:?!—()
FE5D 〔〕#&*+-<>=
FE69 $%@
FE80 ءآآأأؤؤإإئئئئااببببةةتتت
FE98 تثثثثججججححححخخخخددذذررززسسسسششششصصصصضضضضططططظظظظععععغغغغففففققققككككللللممممننننههههووىىيييي
FF5F ⦅⦆.「」、・ヲァィゥェォャュョッーアイウエオカキクケコサシスセソタチツテト
FF9C ワン
FFE0 ¢£¬
FFE4 ¦¥₩
FFED ■○
10781 ːˑæʙɓ
10787 ʣꭦʥʤɖɗᶑɘɞʩɤɢɠʛħʜɧʄʪʫɬ𝼄ꞎɮ𝼅ʎ𝼆øɶɷqɺ𝼈ɽɾʀʨʦꭧʧʈⱱ
107B2 ʏʡʢʘ
107B9 𝼊𝼞
1D49E cd
1D4A5 jk
1D6A4 ıȷ
1D6DB 1D715 1D74F 1D789 ∂εθκφρπ
1D7C3 ∂εθκφρπϝϝ
1E047 ыэюꚉәіјөүӏ
1E05A клопс
1E065 ъыґіѕџҫꙑұ
1EE00 ابجد
1EE05 1EEA5 وزحطي
1EE0E سعفصقرشتثخذضظغٮںڡٯ
1EE21 1EE61 بج
1EE2E سعفصق
1EE34 1EE74 شتثخ
1EE4D نسع
1EE51 صق
1EE67 حطيك
1EE6C منسعفصق
1EE79 ضظغٮ
1EE80 ابجدهوزحطي
1EE8E 1EEAE سعفصقرشتثخذضظغ
1EEA1 بجد
1F210 手字双デ二多解天交映無料前後再新初終生販声吹演投捕一三遊左中右指走打禁空合満有月申割営配
1F250 得可
2F800 丽丸乁𠄢你侮侻倂偺備僧像㒞𠘺免兔兤具𠔜㒹內再𠕋冗冤仌冬况𩇟凵刃㓟刻剆割剷㔕勇勉勤勺包匆北卉卑博即卽卿卿卿𠨬灰及叟𠭣叫叱吆咞吸呈周咢哶唐啓啣善善喙喫喳嗂圖嘆圗噑噴切壮
2F852 城埴堍型堲報墬𡓤売壷夆多夢奢𡚨𡛪姬娛娧姘婦㛮㛼嬈嬾嬾𡧈寃寘寧寳𡬘寿将当尢㞁屠屮峀岍𡷤嵃𡷦嵮嵫嵼巡巢㠯巽帨帽幩㡢𢆃㡼庰庳庶廊𪎒廾𢌱𢌱舁弢弢㣇𣊸𦇚形彫㣣徚忍志忹悁㤺㤜悔𢛔惇慈慌慎慌慺憎憲憤
2F8AE 憯懞懲懶成戛扝抱拔捐𢬌挽拼捨掃揤𢯱搢揅掩㨮摩摾撝摷㩬敏敬𣀊旣書晉㬙暑㬈㫤冒冕最暜肭䏙朗望朡杞杓𣏃㭉柺枅桒梅𣑭梎栟椔㮝楂榣槪檨𣚣櫛㰘次𣢧歔㱎歲殟殺殻𣪍𡴋𣫺汎𣲼沿泍汧洖派海流浩浸涅𣴞洴港湮
2F90A 㴳滋滇𣻑淹潮𣽞𣾎濆瀹瀞瀛㶖灊災灷炭𠔥煅𤉣熜𤎫爨爵牐𤘈犀犕𤜵𤠔獺王㺬玥㺸㺸瑇瑜瑱璅瓊㼛甤𤰶甾𤲒異𢆟瘐𤾡𤾸𥁄㿼䀈直𥃳𥃲𥄙𥄳眞真真睊䀹瞋䁆䂖𥐝硎碌磌䃣𥘦祖𥚚𥛅福秫䄯穀穊穏𥥼𥪧𥪧竮䈂𥮫篆築䈧𥲀
2F966 糒䊠糨糣紀𥾆絣䌁緇縂繅䌴𦈨𦉇䍙𦋙罺𦌾羕翺者𦓚𦔣聠𦖨聰𣍟䏕育脃䐋脾媵𦞧𦞵𣎓𣎜舁舄辞䑫芑芋芝劳花芳芽苦𦬼若茝荣莭茣莽菧著荓菊菌菜𦰶𦵫𦳕䔫蓱蓳蔖𧏊蕤𦼬䕝䕡𦾱𧃒䕫虐虜虧虩蚩蚈蜎蛢蝹蜨蝫螆䗗蟡蠁
2F9C2 䗹衠衣𧙧裗裞䘵裺㒻𧢮𧥦䚾䛇誠諭變豕𧲨貫賁贛起𧼯𠠄跋趼跰𠣞軔輸𨗒𨗭邔郱鄑𨜮鄛鈸鋗鋘鉼鏹鐕𨯺開䦕閷𨵷䧦雃嶲霣𩅅𩈚䩮䩶韠𩐊䪲𩒖頋頋頩𩖶飢䬳餩馧駂駾䯎𩬰鬒鱀鳽䳎䳭鵧𪃎䳸𪄅𪈎𪊑麻䵖黹黾鼅鼏鼖鼻
2FA1D 𪘀"

/-- What becomes two characters, in the form of `letterTable`. -/
def pairTable : String := "
132 ijij
13F l·l·
1C4 dždždžljljljnjnjnj
1F1 dzdzdz
675 اٴوٴۇٴيٴ
EDC ຫນຫມ
1F80 ἀιἁι
1F82 ἂιἃιἄιἅιἆιἇιἀιἁιἂιἃιἄιἅιἆιἇιἠιἡιἢιἣιἤιἥιἦιἧιἠιἡιἢιἣιἤιἥιἦιἧιὠιὡιὢιὣιὤιὥιὦιὧιὠιὡιὢιὣιὤιὥιὦιὧι
1FB2 ὰιαιάι
1FC2 ὴιηιήι
1FF2 ὼιωιώι
2047 ???!!?
2469 1011121314151617181920
3251 212223242526272829303132333435
32B1 3637383940414243444546474849501月2月3月4月5月6月7月8月9月
3358 0点1点2点3点4点5点6点7点8点9点
338A pfnfμfμgmgkghz
3395 μlmldlklfmnmμmmmcmkm
33B0 psnsμsmspvnvμvmvkvmvpwnwμwmwkwmwkωmω
33C8 dbgyhahpinkkkmktlmln
33E0 1日2日3日4日5日6日7日8日9日
FB13 մնմեմիվնմխ
FBEA ئائائەئەئوئوئۇئۇئۆئۆئۈئۈئېئېئېئىئىئى
FC00 ئجئحئمئىئيبجبحبخبمبىبيتجتحتختمتىتيثجثمثىثيجحجمحجحمخجخحخمسجسحسخسمصحصمضجضحضخضمطحطمظمعجعمغجغم
FC2D فجفحفخفمفىفيقحقمقىقيكاكجكحكخكلكمكىكيلجلحلخلملىليمجمحمخمممىمينجنحنخنمنىنيهجهمهىهييجيحيخيميىيي
FC64 ئرئزئمئنئىئيبربزبمبنبىبيترتزتمتنتىتيثرثزثمثنثىثيفىفيقىقيكاكلكمكىكيلملىليماممنرنزنمنننىني
FC91 يريزيمينيىييئجئحئخئمئهبجبحبخبمبهتجتحتختمتهثمجحجمحجحم
FCAB خجخمسجسحسخسمصحصخصمضجضحضخضمطحظمعجعمغجغمفجفحفخفمقحقمكجكحكخكلكملجلحلخلملهمجمحمخممنجنحنخنمنههجهم
FCDA يجيحيخيميهئمئهبمبهتمتهثمثهسمسهشمشهكلكملمنمنهيميه
FCF5 FD11 طىطيعىعيغىغيسىسيشىشيحىحيجىجيخىخيصىصيضىضيشجشحشخشمشر
FD0E سرصرضر
FD2A سرصرضرشجشحشخشمسهشهطمسجسحسخشجشحشخطمظم
FEF5 لآلآلألألإلإلالا
1F101 0,1,2,3,4,5,6,7,8,9,
1F16A mcmdmr"

/-- What becomes three characters. -/
def tripleTable : String := "
BC 1⁄41⁄23⁄4
2474 (1)(2)(3)(4)(5)(6)(7)(8)(9)
249C (a)(b)(c)(d)(e)(f)(g)(h)(i)(j)(k)(l)(m)(n)(o)(p)(q)(r)(s)(t)(u)(v)(w)(x)(y)(z)
3200 (ᄀ)(ᄂ)(ᄃ)(ᄅ)(ᄆ)(ᄇ)(ᄉ)(ᄋ)(ᄌ)(ᄎ)(ᄏ)(ᄐ)(ᄑ)(ᄒ)(가)(나)(다)(라)(마)(바)(사)(아)(자)(차)(카)(타)(파)(하)(주)
3220 (一)(二)(三)(四)(五)(六)(七)(八)(九)(十)(月)(火)(水)(木)(金)(土)(日)(株)(有)(社)(名)(特)(財)(祝)(労)(代)(呼)(学)(監)(企)(資)
3362 10点11点12点13点14点15点16点17点18点19点20点21点22点23点24点hpa
3391 khzmhzghzthz
33E9 10日11日12日13日14日15日16日17日18日19日20日21日22日23日24日25日26日27日28日29日30日31日gal
FD50 تجمتحج
FD52 تحجتحمتخمتمجتمحتمخجمحجمححميحمىسحجسجحسجىسمحسمحسمجسممسممصححصححصممشحمشحمشجيشمخشمخشممشممضحىضخمضخم
FD71 طمحطمحطممطميعجمعممعممعمىغممغميغمىفخمفخمقمحقمملحملحيلحىلججلججلخملخملمحلمحمحجمحممحيمجحمجممخجمخم
FD92 مجخهمجهممنحمنحىنجمنجمنجىنمينمىيمميممبخيتجيتجىتخيتخىتميتمىجميجحىجمىسخى
FDA9 صحيشحيضحيلجيلمييحييجييميمميقمينحيقمحلحمعميكمينجحمخيلجمكمملجمنجحجحيحجيمجيفميبحيكممعجمصممسخينجي
1F110 (a)(b)(c)(d)(e)(f)(g)(h)(i)(j)(k)(l)(m)(n)(o)(p)(q)(r)(s)(t)(u)(v)(w)(x)(y)(z)〔s〕
1F240 〔本〕〔三〕〔二〕〔安〕〔点〕〔打〕〔盗〕〔勝〕〔敗〕"

/-- What the code points from the first of a row on become, a word each. -/
def wordTable : String := "
AA a
149 ʼn
374 ʹ
37E ;
387 ·
3C2 ς
3F2 σ
3F9 σ
587 եւ
F0C ་
10FC ნ
1D30 d
1D32 ǝ
1D78 н
1DBF θ
1E9A aʾ
1F71 ά
1F73 έ
1F75 ή
1F77 ί
1F79 ό
1F7B ύ
1F7D ώ
1FB7 ᾶι
1FBB ά αι
1FC7 ῆι
1FC9 έ ὴ ή ηι
1FDB ί
1FEB ύ
1FEF `
1FF7 ῶι
1FF9 ό ὼ ώ ωι
2011 ‐
2033 ′′ ′′′
2036 ‵‵ ‵‵‵
203C !!
2057 ′′′′
20A8 rs
2100 a/c a/s c °c
2105 c/o c/u ɛ
2109 °f
2115 n no
2120 sm tel tm
2124 z
2128 z
2139 i
213B fax π γ γ π ∑
2150 1⁄7 1⁄9 1⁄10 1⁄3 2⁄3 1⁄5 2⁄5 3⁄5 4⁄5 1⁄6 5⁄6 1⁄8 3⁄8 5⁄8 7⁄8 1⁄
2160 i ii iii iv v vi vii viii ix x xi xii l c d m i ii iii iv v vi vii viii ix x xi xii l c d m
2189 0⁄3
222C ∫∫ ∫∫∫
222F ∮∮ ∮∮∮
247D (10) (11) (12) (13) (14) (15) (16) (17) (18) (19) (20)
24EA 0
2A0C ∫∫∫∫
2A74 ::= == ===
2D6F ⵡ
2E9F 母
2EF3 龟
3002 .
3036 〒
309F より
30FF コト
3140 ᄚ
3144 ᄡ
321D (오전) (오후)
323F (協) (祭) (休) (自) (至) 問 幼 文 箏
3250 pte
327C 참고 주의 우
32C9 10月 11月 12月 hg erg ev ltd
32FF 令和 アパート アルファ アンペア アール イニング
3305 インチ ウォン エスクード エーカー オンス オーム カイリ カラット カロリー ガロン ガンマ ギガ ギニー キュリー ギルダー キロ キログラム キロメートル キロワット グラム
3319 グラムトン クルゼイロ クローネ ケース コルナ コーポ サイクル サンチーム シリング センチ セント ダース デシ ドル トン ナノ ノット ハイツ パーセント パーツ バーレル
332E ピアストル ピクル ピコ ビル ファラッド フィート ブッシェル フラン ヘクタール ペソ ペニヒ ヘルツ ペンス ページ ベータ ポイント ボルト ホン ポンド ホール ホーン
3343 マイクロ マイル マッハ マルク マンション ミクロン ミリ ミリバール メガ メガトン メートル ヤード ヤール ユアン リットル リラ ルピー ルーブル レム レントゲン ワット
3372 da au bar ov pc dm dm2 dm3 iu 平成 昭和 大正 明治 株式会社 pa na μa ma ka kb mb gb cal kcal
339F mm2 cm2 m2 km2 mm3 cm3 m3 km3 m∕s m∕s2 pa kpa mpa gpa rad rad∕s rad∕s2
33C3 bq cc cd c∕kg
33D2 log lx mb mil mol ph
33D9 ppm pr sr sv wb v∕m a∕m
A770 ꝯ
AB69 ʍ
FA10 塚
FA12 晴
FA20 蘒
FA22 諸
FB00 ff fi fl ffi ffl st st
FB4F אל ٱ ٱ ٻ ٻ ٻ
FBDD ۇٴ
FDF0 صلے قلے الله اكبر محمد صلعم رسول عليه وسلم صلى
FDFC ریال
FFB0 ᄚ
FFB4 ᄡ
FFE8 │
1D49C a
1D4A2 g
1D504 a
1D508 e
1D50A g
1D538 a
1D541 j
1D543 l
1D6B9 θ
1D6C1 ∇
1D6D3 σ
1D6F3 θ
1D6FB ∇
1D70D σ
1D72D θ
1D735 ∇
1D747 σ
1D767 θ
1D76F ∇
1D781 σ
1D7A1 θ
1D7A9 ∇
1D7BB σ
1EE24 ه
1EE27 ح
1EE29 ي
1EE39 ض
1EE3B غ
1EE42 ج
1EE47 ح
1EE49 ي
1EE4B ل
1EE54 ش
1EE57 خ
1EE59 ض
1EE5B غ
1EE5D ں
1EE5F ٯ
1EE64 ه
1EE7E ڡ
1F12B c r cd wz
1F14A hv mv sd ss ppv wc
1F190 dj
1F200 ほか ココ サ"

/-- What becomes marks, blanks or brackets: how many each code point becomes, the first code point,
and what those from it on become. -/
def markedTable : String := "
1 A0 20
2 A8 20 308
2 AF 20 304
2 B4 20 301
2 B8 20 327
2 130 69 307
2 2D8 20 306 20 307 20 30A 20 328 20 303 20 30B
1 340 300 301
1 343 313
2 344 308 301
2 37A 20 3B9
2 384 20 301
3 385 20 308 301
2 958 915 93C 916 93C 917 93C 91C 93C 921 93C 922 93C 92B 93C 92F 93C
2 9DC 9A1 9BC 9A2 9BC
2 9DF 9AF 9BC
2 A33 A32 A3C
2 A36 A38 A3C
2 A59 A16 A3C A17 A3C A1C A3C
2 A5E A2B A3C
2 B5C B21 B3C B22 B3C
2 E33 E4D E32
2 EB3 ECD EB2
2 F43 F42 FB7
2 F4D F4C FB7
2 F52 F51 FB7
2 F57 F56 FB7
2 F5C F5B FB7
2 F69 F40 FB5
2 F73 F71 F72
2 F75 F71 F74 FB2 F80
3 F77 FB2 F71 F80
2 F78 FB3 F80
3 F79 FB3 F71 F80
2 F81 F71 F80
2 F93 F92 FB7
2 F9D F9C FB7
2 FA2 FA1 FB7
2 FA7 FA6 FB7
2 FAC FAB FB7
2 FB9 F90 FB5
2 1FBD 20 313
2 1FBF 20 313 20 342
3 1FC1 20 308 342
3 1FCD 20 313 300 20 313 301 20 313 342
3 1FDD 20 314 300 20 314 301 20 314 342
3 1FED 20 308 300 20 308 301
2 1FFD 20 301 20 314
1 2000 20 20 20 20 20 20 20 20 20 20 20
2 2017 20 333
1 202F 20
2 203E 20 305
1 205F 20
2 2ADC 2ADD 338
1 3000 20
2 309B 20 3099 20 309A
2 FB1D 5D9 5B4
2 FB1F 5F2 5B7
2 FB2A 5E9 5C1 5E9 5C2
3 FB2C 5E9 5BC 5C1 5E9 5BC 5C2
2 FB2E 5D0 5B7 5D0 5B8 5D0 5BC 5D1 5BC 5D2 5BC 5D3 5BC 5D4 5BC 5D5 5BC 5D6 5BC
2 FB38 5D8 5BC 5D9 5BC 5DA 5BC 5DB 5BC 5DC 5BC
2 FB3E 5DE 5BC
2 FB40 5E0 5BC 5E1 5BC
2 FB43 5E3 5BC 5E4 5BC
2 FB46 5E6 5BC 5E7 5BC 5E8 5BC 5E9 5BC 5EA 5BC 5D5 5B9 5D1 5BF 5DB 5BF 5E4 5BF
2 FC5B 630 670 631 670 649 670
3 FC5E 20 64C 651 20 64D 651 20 64E 651 20 64F 651 20 650 651 20 651 670
2 FC90 649 670
2 FCD9 647 670
3 FCF2 640 64E 651 640 64F 651 640 650 651
2 FD3C 627 64B 627 64B
12 FDFA 635 644 649 20 627 644 644 647 20 639 644 64A 647 20 648 633 644 645
8 FDFB 62C 644 20 62C 644 627 644 647
1 FE37 7B 7D
2 FE49 20 305 20 305 20 305 20 305
1 FE5B 7B 7D
1 FE68 5C
2 FE70 20 64B 640 64B 20 64C
2 FE74 20 64D
2 FE76 20 64E 640 64E 20 64F 640 64F 20 650 640 650 20 651 640 651 20 652 640 652
1 FF9E 3099 309A
2 FFE3 20 304
2 1D15E 1D157 1D165 1D158 1D165
3 1D160 1D158 1D165 1D16E 1D158 1D165 1D16F 1D158 1D165 1D170 1D158 1D165 1D171 1D158 1D165 1D172
2 1D1BB 1D1B9 1D165 1D1BA 1D165
3 1D1BD 1D1B9 1D165 1D16E 1D1BA 1D165 1D16E 1D1B9 1D165 1D16F 1D1BA 1D165 1D16F"

/-- The code points `first`, `first + step`, ... up to `last` become `target`, `target + step`
and so on. -/
structure Shift where
  first : Nat
  last : Nat
  step : Nat
  target : Nat

def shifts : List Shift :=
  (codeTable shiftTable).flatMap fun
    | step :: width :: target :: firsts =>
      firsts.map fun first => ⟨first, first + width, step, target⟩
    | _ => []

/-- The code points from `first` on become the `targets` in turn. -/
structure Replacement where
  first : Nat
  targets : List Text

/-- A text in pieces of `width` characters; what is over is left out. -/
def piecesOf (width : Nat) (text : Text) : List Text :=
  (List.range (text.length / width)).map fun i => (text.drop (i * width)).take width

/-- The last word of a row is what all of its stretches become. -/
def packedRows (width : Nat) (table : String) : List Replacement :=
  (tableRows table).flatMap fun row =>
    row.dropLast.map fun first => ⟨hexNumber first, piecesOf width (row.getLastD [])⟩

def replacements : List Replacement :=
  let words := (tableRows wordTable).filterMap fun
    | first :: targets => some ⟨hexNumber first, targets⟩
    | [] => none
  let marked := (codeTable markedTable).filterMap fun
    | width :: first :: targets => some ⟨first, piecesOf width (targets.map Char.ofNat)⟩
    | _ => none
  packedRows 1 letterTable ++ packedRows 2 pairTable ++ packedRows 3 tripleTable ++ words ++ marked

def Shift.image? (s : Shift) (n : Nat) : Option Nat :=
  if s.first ≤ n && n ≤ s.last && (n - s.first) % s.step == 0 then some (s.target + (n - s.first))
  else none

def Replacement.image? (r : Replacement) (n : Nat) : Option Text :=
  if r.first ≤ n then r.targets[n - r.first]? else none

/-- What a character becomes; one that no table names is folded. -/
def mapped (c : Char) : Text :=
  if isAscii c then [lowerAscii c]
  else if inRanges vanishingRanges c.toNat then []
  else
    match shifts.findSome? (·.image? c.toNat) with
    | some target => [Char.ofNat target]
    | none => (replacements.findSome? (·.image? c.toNat)).getD [fold c]

end KrlWorkbench.HostName
