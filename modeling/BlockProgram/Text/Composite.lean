/-! Characters that stand for others, as Unicode 15 has them. A composite is one character for a
letter and a mark; a replaced character is never kept. -/
namespace BlockProgram.Text

/-- Composites by the mark they end in, each followed by what the mark stands on. Korean syllables
are left out. -/
def compositeLines : List (Nat × String) := [
  (768, "ÀAÈEÌIÒOÙUàaèeìiòoùuǛÜǜüǸNǹnЀЕЍИѐеѝиḔĒḕēṐŌṑōẀWẁwẦÂầâẰĂằăỀÊềêỒÔồôỜƠờơỪƯừưỲYỳyἂἀἃἁἊἈἋἉ"),
  (768, "ἒἐἓἑἚἘἛἙἢἠἣἡἪἨἫἩἲἰἳἱἺἸἻἹὂὀὃὁὊὈὋὉὒὐὓὑὛὙὢὠὣὡὪὨὫὩὰαὲεὴηὶιὸοὺυὼωᾺΑῈΕῊΗ῍᾿ῒϊῚΙ῝῾ῢϋῪΥ῭¨ῸΟῺΩ"),
  (769, "ÁAÉEÍIÓOÚUÝYáaéeíióoúuýyĆCćcĹLĺlŃNńnŔRŕrŚSśsŹZźzǗÜǘüǴGǵgǺÅǻåǼÆǽæǾØǿø΅¨ΆΑΈΕΉΗΊΙΌΟΎΥΏΩ"),
  (769, "ΐϊάαέεήηίιΰϋόούυώωϓϒЃГЌКѓгќкḈÇḉçḖĒḗēḮÏḯïḰKḱkḾMḿmṌÕṍõṒŌṓōṔPṕpṸŨṹũẂWẃwẤÂấâẮĂắăẾÊếêỐÔốô"),
  (769, "ỚƠớơỨƯứưἄἀἅἁἌἈἍἉἔἐἕἑἜἘἝἙἤἠἥἡἬἨἭἩἴἰἵἱἼἸἽἹὄὀὅὁὌὈὍὉὔὐὕὑὝὙὤὠὥὡὬὨὭὩ῎᾿῞῾"),
  (770, "ÂAÊEÎIÔOÛUâaêeîiôoûuĈCĉcĜGĝgĤHĥhĴJĵjŜSŝsŴWŵwŶYŷyẐZẑzẬẠậạỆẸệẹỘỌộọ"),
  (771, "ÃAÑNÕOãañnõoĨIĩiŨUũuṼVṽvẪÂẫâẴĂẵăẼEẽeỄÊễêỖÔỗôỠƠỡơỮƯữưỸYỹy"),
  (772, "ĀAāaĒEēeĪIīiŌOōoŪUūuǕÜǖüǞÄǟäǠȦǡȧǢÆǣæǬǪǭǫȪÖȫöȬÕȭõȰȮȱȯȲYȳyӢИӣиӮУӯуḠGḡgḸḶḹḷṜṚṝṛᾱαᾹΑῑιῙΙ"),
  (772, "ῡυῩΥ"), (774, "ĂAăaĔEĕeĞGğgĬIĭiŎOŏoŬUŭuЎУЙИйиўуӁЖӂжӐАӑаӖЕӗеḜȨḝȩẶẠặạᾰαᾸΑῐιῘΙῠυῨΥ"),
  (775, "ĊCċcĖEėeĠGġgİIŻZżzȦAȧaȮOȯoḂBḃbḊDḋdḞFḟfḢHḣhṀMṁmṄNṅnṖPṗpṘRṙrṠSṡsṤŚṥśṦŠṧšṨṢṩṣṪTṫtẆWẇwẊX"),
  (775, "ẋxẎYẏyẛſ"),
  (776, "ÄAËEÏIÖOÜUäaëeïiöoüuÿyŸYΪΙΫΥϊιϋυϔϒЁЕЇІёеїіӒАӓаӚӘӛәӜЖӝжӞЗӟзӤИӥиӦОӧоӪӨӫөӬЭӭэӰУӱуӴЧӵчӸЫ"),
  (776, "ӹыḦHḧhṎÕṏõṺŪṻūẄWẅwẌXẍxẗt"), (777, "ẢAảaẨÂẩâẲĂẳăẺEẻeỂÊểêỈIỉiỎOỏoỔÔổôỞƠởơỦUủuỬƯửưỶYỷy"),
  (778, "ÅAåaŮUůuẘwẙy"), (779, "ŐOőoŰUűuӲУӳу"),
  (780, "ČCčcĎDďdĚEěeĽLľlŇNňnŘRřrŠSšsŤTťtŽZžzǍAǎaǏIǐiǑOǒoǓUǔuǙÜǚüǦGǧgǨKǩkǮƷǯʒǰjȞHȟh"),
  (783, "ȀAȁaȄEȅeȈIȉiȌOȍoȐRȑrȔUȕuѶѴѷѵ"), (785, "ȂAȃaȆEȇeȊIȋiȎOȏoȒRȓrȖUȗu"),
  (787, "ἀαἈΑἐεἘΕἠηἨΗἰιἸΙὀοὈΟὐυὠωὨΩῤρ"), (788, "ἁαἉΑἑεἙΕἡηἩΗἱιἹΙὁοὉΟὑυὙΥὡωὩΩῥρῬΡ"),
  (795, "ƠOơoƯUưu"),
  (803, "ḄBḅbḌDḍdḤHḥhḲKḳkḶLḷlṂMṃmṆNṇnṚRṛrṢSṣsṬTṭtṾVṿvẈWẉwẒZẓzẠAạaẸEẹeỊIịiỌOọoỢƠợơỤUụuỰƯựưỴYỵy"),
  (804, "ṲUṳu"), (805, "ḀAḁa"), (806, "ȘSșsȚTțt"),
  (807, "ÇCçcĢGģgĶKķkĻLļlŅNņnŖRŗrŞSşsŢTţtȨEȩeḐDḑdḨHḩh"), (808, "ĄAąaĘEęeĮIįiŲUųuǪOǫo"),
  (813, "ḒDḓdḘEḙeḼLḽlṊNṋnṰTṱtṶUṷu"), (814, "ḪHḫh"), (816, "ḚEḛeḬIḭiṴUṵu"),
  (817, "ḆBḇbḎDḏdḴKḵkḺLḻlṈNṉnṞRṟrṮTṯtẔZẕzẖh"),
  (824, "↚←↛→↮↔⇍⇐⇎⇔⇏⇒∄∃∉∈∌∋∤∣∦∥≁∼≄≃≇≅≉≈≠=≢≡≭≍≮<≯>≰≤≱≥≴≲≵≳≸≶≹≷⊀≺⊁≻⊄⊂⊅⊃⊈⊆⊉⊇⊬⊢⊭⊨⊮⊩⊯⊫⋠≼⋡≽⋢⊑⋣⊒⋪⊲⋫⊳"),
  (824, "⋬⊴⋭⊵"), (834, "ἆἀἇἁἎἈἏἉἦἠἧἡἮἨἯἩἶἰἷἱἾἸἿἹὖὐὗὑὟὙὦὠὧὡὮὨὯὩᾶα῁¨ῆη῏᾿ῖιῗϊ῟῾ῦυῧϋῶω"),
  (837, "ᾀἀᾁἁᾂἂᾃἃᾄἄᾅἅᾆἆᾇἇᾈἈᾉἉᾊἊᾋἋᾌἌᾍἍᾎἎᾏἏᾐἠᾑἡᾒἢᾓἣᾔἤᾕἥᾖἦᾗἧᾘἨᾙἩᾚἪᾛἫᾜἬᾝἭᾞἮᾟἯᾠὠᾡὡᾢὢᾣὣᾤὤᾥὥᾦὦᾧὧᾨὨᾩὩ"),
  (837, "ᾪὪᾫὫᾬὬᾭὭᾮὮᾯὯᾲὰᾳαᾴάᾷᾶᾼΑῂὴῃηῄήῇῆῌΗῲὼῳωῴώῷῶῼΩ"), (1619, "آا"), (1620, "أاؤوئيۀەۂہۓے"),
  (1621, "إا"), (2364, "ऩनऱरऴळ"), (2494, "োে"), (2519, "ৌে"), (2878, "ୋେ"), (2902, "ୈେ"),
  (2903, "ୌେ"), (3006, "ொெோே"), (3031, "ஔஒௌெ"), (3158, "ైె"), (3266, "ೊೆ"), (3285, "ೀಿೇೆೋೊ"),
  (3286, "ೈೆ"), (3390, "ൊെോേ"), (3415, "ൌെ"), (3530, "ේෙෝො"), (3535, "ොෙ"), (3551, "ෞෙ"),
  (4142, "ဦဥ"), (6965, "ᬆᬅᬈᬇᬊᬉᬌᬋᬎᬍᬒᬑᬻᬺᬽᬼᭀᬾᭁᬿᭃᭂ"),
  (12441, "がかぎきぐくげけごこざさじしずすぜせぞそだたぢちづつでてどとばはびひぶふべへぼほゔうゞゝガカギキグクゲケゴコザサジシズスゼセゾソダタヂチヅツデテドトバハビヒブフベヘボホ"),
  (12441, "ヴウヷワヸヰヹヱヺヲヾヽ"), (12442, "ぱはぴひぷふぺへぽほパハピヒプフペヘポホ"), (69818, "𑂚𑂙𑂜𑂛𑂫𑂥"), (69927, "𑄮𑄱𑄯𑄲"),
  (70462, "𑍋𑍇"), (70487, "𑍌𑍇"), (70832, "𑒼𑒹"), (70842, "𑒻𑒹"), (70845, "𑒾𑒹"), (71087, "𑖺𑖸𑖻𑖹"),
  (71984, "𑤸𑤵")]

/-- Composites that are taken apart and not put together again. -/
def brokenLines : List (Nat × String) := [
  (769, "̈́̈άαέεήηίιόούυώωΆΑΈΕΉΗΐϊΊΙΰϋΎΥ΅¨ΌΟΏΩ"), (778, "ÅA"), (824, "⫝̸⫝"), (1460, "יִי"),
  (1463, "ײַײאַא"), (1464, "אָא"), (1465, "וֹו"),
  (1468, "אּאבּבגּגדּדהּהוּוזּזטּטיּיךּךכּכלּלמּמנּנסּסףּףפּפצּצקּקרּרשּשתּת"), (1471, "בֿבכֿכפֿפ"), (1473, "שׁששּׁשּ"),
  (1474, "שׂששּׂשּ"), (2364, "क़कख़खग़गज़जड़डढ़ढफ़फय़य"), (2492, "ড়ডঢ়ঢয়য"), (2620, "ਲ਼ਲਸ਼ਸਖ਼ਖਗ਼ਗਜ਼ਜਫ਼ਫ"),
  (2876, "ଡ଼ଡଢ଼ଢ"), (3954, "ཱཱི"), (3956, "ཱཱུ"), (3968, "ྲྀྲླྀླཱཱྀ"), (4021, "ཀྵཀྐྵྐ"),
  (4023, "གྷགཌྷཌདྷདབྷབཛྷཛྒྷྒྜྷྜྡྷྡྦྷྦྫྷྫ"), (119141, "𝅗𝅥𝅗𝅘𝅥𝅘𝆹𝅥𝆹𝆺𝅥𝆺"), (119150, "𝅘𝅥𝅮𝅘𝅥𝆹𝅥𝅮𝆹𝅥𝆺𝅥𝅮𝆺𝅥"), (119151, "𝅘𝅥𝅯𝅘𝅥𝆹𝅥𝅯𝆹𝅥𝆺𝅥𝅯𝆺𝅥"),
  (119152, "𝅘𝅥𝅰𝅘𝅥"), (119153, "𝅘𝅥𝅱𝅘𝅥"), (119154, "𝅘𝅥𝅲𝅘𝅥")]

def pairs : List Char → List (Nat × Nat)
  | a :: b :: rest => (a.toNat, b.toNat) :: pairs rest
  | _ => []

/-- Composites with the two characters they are made of. -/
def withParts (lines : List (Nat × String)) : List (Nat × Nat × Nat) :=
  lines.flatMap fun l => (pairs l.2.toList).map fun p => (p.1, p.2, l.1)

def composites : List (Nat × Nat × Nat) := withParts compositeLines

def broken : List (Nat × Nat × Nat) := withParts brokenLines

/-- Characters that are replaced by one other: what stands for a code point and for those behind
it. -/
def singles : List (Nat × String) := [
  (832, "̀́"), (835, "̓"), (884, "ʹ"), (894, ";"), (903, "·"), (8126, "ι"), (8175, "`"), (8189, "´"),
  (8192, "  "), (8486, "Ω"), (8490, "K"), (9001, "〈〉"),
  (63744, "豈更車賈滑串句龜龜契金喇奈懶癩羅蘿螺裸邏樂洛烙珞落酪駱亂卵欄爛蘭鸞嵐濫藍襤拉臘蠟廊朗浪狼郎來冷勞"),
  (63792, "擄櫓爐盧老蘆虜路露魯鷺碌祿綠菉錄鹿論壟弄籠聾牢磊賂雷壘屢樓淚漏累縷陋勒肋凜凌稜綾菱陵讀拏樂諾丹寧"),
  (63840, "怒率異北磻便復不泌數索參塞省葉說殺辰沈拾若掠略亮兩凉梁糧良諒量勵呂女廬旅濾礪閭驪麗黎力曆歷轢年憐"),
  (63888, "戀撚漣煉璉秊練聯輦蓮連鍊列劣咽烈裂說廉念捻殮簾獵令囹寧嶺怜玲瑩羚聆鈴零靈領例禮醴隸惡了僚寮尿料樂"),
  (63936, "燎療蓼遼龍暈阮劉杻柳流溜琉留硫紐類六戮陸倫崙淪輪律慄栗率隆利吏履易李梨泥理痢罹裏裡里離匿溺吝燐璘"), (63984, "藺隣鱗麟林淋臨立笠粒狀炙識什茶刺切度拓糖宅洞暴輻行降見廓兀嗀"),
  (64016, "塚"), (64018, "晴"), (64021, "凞猪益礼神祥福靖精羽"), (64032, "蘒"), (64034, "諸"), (64037, "逸都"),
  (64042, "飯飼館鶴郞隷侮僧免勉勤卑喝嘆器塀墨層屮悔慨憎懲敏既暑梅海渚漢煮爫琢碑社祉祈祐祖祝禍禎穀突節練縉繁"), (64090, "署者臭艹艹著褐視謁謹賓贈辶逸難響頻恵𤋮舘"),
  (64112, "並况全侀充冀勇勺喝啕喙嗢塚墳奄奔婢嬨廒廙彩徭惘慎愈憎慠懲戴揄搜摒敖晴朗望杖歹殺流滛滋漢瀞煮瞧爵犯"),
  (64160, "猪瑱甆画瘝瘟益盛直睊着磌窱節类絛練缾者荒華蝹襁覆視調諸請謁諾諭謹變贈輸遲醙鉶陼難靖韛響頋頻鬒龜𢡊"), (64208, "𢡄𣏕㮝䀘䀹𥉉𥳐𧻓齃龎"),
  (194560, "丽丸乁𠄢你侮侻倂偺備僧像㒞𠘺免兔兤具𠔜㒹內再𠕋冗冤仌冬况𩇟凵刃㓟刻剆割剷㔕勇勉勤勺包匆北卉卑博即"),
  (194608, "卽卿卿卿𠨬灰及叟𠭣叫叱吆咞吸呈周咢哶唐啓啣善善喙喫喳嗂圖嘆圗噑噴切壮城埴堍型堲報墬𡓤売壷夆多夢奢"),
  (194656, "𡚨𡛪姬娛娧姘婦㛮㛼嬈嬾嬾𡧈寃寘寧寳𡬘寿将当尢㞁屠屮峀岍𡷤嵃𡷦嵮嵫嵼巡巢㠯巽帨帽幩㡢𢆃㡼庰庳庶廊𪎒"),
  (194704, "廾𢌱𢌱舁弢弢㣇𣊸𦇚形彫㣣徚忍志忹悁㤺㤜悔𢛔惇慈慌慎慌慺憎憲憤憯懞懲懶成戛扝抱拔捐𢬌挽拼捨掃揤𢯱搢"),
  (194752, "揅掩㨮摩摾撝摷㩬敏敬𣀊旣書晉㬙暑㬈㫤冒冕最暜肭䏙朗望朡杞杓𣏃㭉柺枅桒梅𣑭梎栟椔㮝楂榣槪檨𣚣櫛㰘次"),
  (194800, "𣢧歔㱎歲殟殺殻𣪍𡴋𣫺汎𣲼沿泍汧洖派海流浩浸涅𣴞洴港湮㴳滋滇𣻑淹潮𣽞𣾎濆瀹瀞瀛㶖灊災灷炭𠔥煅𤉣熜𤎫"),
  (194848, "爨爵牐𤘈犀犕𤜵𤠔獺王㺬玥㺸㺸瑇瑜瑱璅瓊㼛甤𤰶甾𤲒異𢆟瘐𤾡𤾸𥁄㿼䀈直𥃳𥃲𥄙𥄳眞真真睊䀹瞋䁆䂖𥐝硎碌"),
  (194896, "磌䃣𥘦祖𥚚𥛅福秫䄯穀穊穏𥥼𥪧𥪧竮䈂𥮫篆築䈧𥲀糒䊠糨糣紀𥾆絣䌁緇縂繅䌴𦈨𦉇䍙𦋙罺𦌾羕翺者𦓚𦔣聠𦖨聰"),
  (194944, "𣍟䏕育脃䐋脾媵𦞧𦞵𣎓𣎜舁舄辞䑫芑芋芝劳花芳芽苦𦬼若茝荣莭茣莽菧著荓菊菌菜𦰶𦵫𦳕䔫蓱蓳蔖𧏊蕤𦼬䕝䕡"),
  (194992, "𦾱𧃒䕫虐虜虧虩蚩蚈蜎蛢蝹蜨蝫螆䗗蟡蠁䗹衠衣𧙧裗裞䘵裺㒻𧢮𧥦䚾䛇誠諭變豕𧲨貫賁贛起𧼯𠠄跋趼跰𠣞軔輸"),
  (195040, "𨗒𨗭邔郱鄑𨜮鄛鈸鋗鋘鉼鏹鐕𨯺開䦕閷𨵷䧦雃嶲霣𩅅𩈚䩮䩶韠𩐊䪲𩒖頋頋頩𩖶飢䬳餩馧駂駾䯎𩬰鬒鱀鳽䳎䳭鵧"), (195088, "𪃎䳸𪄅𪈎𪊑麻䵖黹黾鼅鼏鼖鼻𪘀")]

def composite? (n : Nat) : Option (Nat × Nat) :=
  ((composites ++ broken).find? (·.1 = n)).map (·.2)

def replacement? (n : Nat) : Option Nat :=
  (singles.findSome? fun e => if e.1 ≤ n then e.2.toList[n - e.1]? else none).map (·.toNat)

def compose? (first second : Nat) : Option Nat :=
  (composites.find? fun e => e.2.1 = first && e.2.2 = second).map (·.1)

end BlockProgram.Text
