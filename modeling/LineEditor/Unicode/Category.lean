import LineEditor.Unicode.Packed

/-!
# General categories

Every code point has exactly one of thirty general categories. The table is a partition of the
code space into runs (`Partition`), and a category or a group of categories is a selection of it.
-/

namespace LineEditor.Unicode

/-- Runs of the general category, numbered in the order of `categoryNames`. -/
def categoryPartition : List String :=
  ["BgzbwdrbtdrbnbobrbsbrbmcrkicrdscrBaabnbrbobublbuBabbnbsbobsBhzbwbretbvbrbubvbebpbsbBabvbubvb",
   "sckbubbcrbubkbebqdkbrxabshaybbsibbabbbabbbabbbabbbabbbabbbabbbabbbabbbabbbabbbabbbabbbabbbab",
   "bbabbbabbbabbbabbbabbbabbbabbbabbbabbbabbbabbbabbbacbbabbbabbbabbbabbbabbbabbbabbbacbbabbbab",
   "bbabbbabbbabbbabbbabbbabbbabbbabbbabbbabbbabbbabbbabbbabbbabbbabbbabbbabbbabbbabbbabbcabbbab",
   "bbadbcabbbabbcabbdacbeabbcabbdadbcabbcabbbabbbabbcabbbacbbabbcabbdabbbabbcacbbebadbeebabcbbb",
   "abcbbbabcbbbabbbabbbabbbabbbabbbabbbabbbacbbabbbabbbabbbabbbabbbabbbabbbabbbacbbabcbbbabbdab",
   "bbabbbabbbabbbabbbabbbabbbabbbabbbabbbabbbabbbabbbabbbabbbabbbabbbabbbabbbabbbabbbabbbabbbab",
   "bbabbbabbbabbbabbbabbbahbcabbcacbbabbeabbbabbbabbbabbbaCrbbeBbbsdeumdoufdhubdbubdruEifbabbba",
   "bbbdbubabbcBdbddbbrbaeBdcubabrdabBdbabBdcabbrabBdjaBjbbacbdadbbabbbabbbabbbabbbabbbabbbabbba",
   "bbbabbbabbbabbbafbbabbbsbabbcacbBzaBwbbabbbabbbabbbabbbabbbabbbabbbabbbabbbabbbabbbabbbabbba",
   "bbbabbbabbbabbbvffchbabbbabbbabbbabbbabbbabbbabbbabbbabbbabbbabbbabbbabbbabbbabbbabbbabbbabb",
   "babbbabbbabbbabbbabbbabbbabbbabbbabbcabbbabbbabbbabbbabbbabbbacbbabbbabbbabbbabbbabbbabbbabb",
   "babbbabbbabbbabbbabbbabbbabbbabbbabbbabbbabbbabbbabbbabbbabbbabbbabbbabbbabbbabbbabbbabbbabb",
   "babbbabbbabbbabbbabbbabbbabbbabbbabbbabbbabbbabbbabbbabbbabbbabbbabbbabbbBdBmacBdbdgrBpbbrbm",
   "cBdcvbtbBdBtfbmbfbrcfbrcfbrbfiBdBbeeBdeecrlBdgBadscrbtcrcvlfbrbBadrBgebdkevfkiercebfDvebrbeh",
   "fbBabvgfcdcfbvefcekidecvbeorbBdbBabebfBeeBbfcBdDlelfbeoBdkiBhejfcdbvdrbdcBdbfctweefbdjfbddfb",
   "dffcBdprbBdzedfcBdbrbBdlefBdyebugebBdcBagBdifBpebdyfbBaBgfbgCcebfbgbfbedgifegbfcgbehfkecfcrk",
   "ibrbdpebfcgbBdiecBdcecBdwebBdhebBdbedBdeecBdbfbedgefcBdcgcBdcgbfbeiBdbgeBdcebBddecfcBdkicect",
   "gkbvbtbebrbfcBdcfbgbBdgeeBdcecBdwebBdhebBdcebBdcebBdcecBdbfbBddgcfeBdcfcBddfdBdbfhBdeebBdbeh",
   "BdkicfdebfbrkBdcfbgbBdjebBddebBdwebBdhebBdcebBdfecBdbfbedgffbBdcfbgbBdcgbfcBdbepBdcecfcBdkib",
   "rbthBdbegfbBdbfcgbBdiecBdcecBdwebBdhebBdcebBdfecBdbfbebgbfbgefcBdcgcBdcgbfhBdcfbgeBdcebBddec",
   "fcBdkibvbegkkBdbfbebBdgedBddebBdeedBdcebBdbebBdcedBdcedBddedBdmeeBdcgbfcgdBddgbBddgbfcBdbegB",
   "dbgoBdkidkgvbtbvfBdbfdgbfiebBddebBdxebBdqecBdbfbedfegbBddfbBdefhBdcfbBddecBdbecBdcecfcBdkihB",
   "dbrhkbvbebfcgbriebBddebBdxebBdkebBdfecBdbfbebgbffgbBdbfcgbBdcgcfhBdcggBdcebBdcecfcBdkibBdceb",
   "gmBdcfcgjebBddebBdBpecfbedgefbBddgbBddgbfbebveBddebghkdecfcBdkijkbvgebBdbfcgbBdsedBdyebBdjeb",
   "BdbecBdhedBdbfeBddgdfbBdbfbBdiggBdkicBdcgbrmBdBwebfcehfeBdbtgebdifbrkicrBlBdcebBdbebBdfebBdy",
   "ebBdbebBdkebfcejfbecBdfebBdbdbBdhfbBdkicBdeeBgBdbedvprbvbrdvcfgvkikkbvbfbvbfbvbfbnbobnbocgie",
   "bBdBkeeBdofbgffbrcffelfbBdBkfbBdivbfgvbBdcvfrevcrBlBdBrecgefbggfbgcfcgcfbekigrgecgcfeedfbedg",
   "cehgdeefnebfcgcfggbfbebgkidgbfcvBmabBdbafBdbacBdBrbbrbddbMrebBdeecBdhebBdbebBdeecBdBpebBdeec",
   "BdBhebBdeecBdhebBdbebBdeecBdpebBdCfebBdeecBdCpecBddfjrukdBdqekvgBdDiacBdgbcBdbmXwebvbrrebwBa",
   "ebnbodBdCxedrdjiehBdsedfbgjBdtecfbgcrjBdsecfmBdnebBddebBdcfmBdCaecfbghfigbfcglfdrbddrbtbebfc",
   "BdkigBdkkgBdgrbmerdfbBabfkigBdBjebdCbehBdfecfBiebfbefBdCsekBdBfebBddfegcfdgeBdcgbfggdfeBdbvd",
   "BdcrkiBeecBdfelBdBseeBdBaegBdkibkdBdBivxecfcgbfcBdcrCbebgbfbghfbBdbfbgbfcgifggkfcBdbfkigBdki",
   "gBdhrbdgrcBdofbhqfBxBdefbgBvebfbgffbgbffgbfcgiedBdkihrkvjfjvcrbBdcfbgBeebgefcgcfbgdfcekiBseb",
   "fbgcfdgbfbgdfcgiBderBkeigifcgcfdBdfrkidBddekiBeegdcrjbhBdBracBddairiBddfbrnfbghfeebfgebfcebg",
   "cfbefBdBsbCldnbbdBibBldCmfbabbbabbbabbbabbbabbbabbbabbbabbbabbbabbbabbbabbbabbbabbbabbbabbba",
   "bbbabbbabbbabbbabbbabbbabbbabbbabbbabbbabbbabbbabbbabbbabbbabbbabbbabbbabbbabbbabbbabbbabbba",
   "bbbabbbabbbabbbabbbabbbabbbabbbabbbabbbabbbabbbabbbabbbabbbabbbabbbabbbabbbabbbabbbabbbabbba",
   "bbbabbbabbbabbbabbbabbbabbbabbbabbbabbbabbbabbbajbbabbbabbbabbbabbbabbbabbbabbbabbbabbbabbba",
   "bbbabbbabbbabbbabbbabbbabbbabbbabbbabbbabbbabbbabbbabbbabbbabbbabbbabbbabbbabbbabbbabbbabbba",
   "bbbabbbabbbabbbabbbabbbabbbabbbabbbabbbabbbabbbabbbabbbabbbajbiagbcBdgacBdibiaibiagbcBdgacBd",
   "ibbBdbabBdbabBdbabBdbaibiaobcBdibicibicibicfbbBdcbeabcbubbdudbbBdcbeabcduebcBdcbeabBdduibfad",
   "ucBddbbBdcbeabccubBdlwfBagmcrbpbqbncpbqbnbpirbxbyfBabwjrbpbqercldrbsbnbolrbsbrblkrbwfBabBdkB",
   "abkbdcBdgkdsbnbobdkkdsbnbobBdnddBdBhtpBdnfehbfdhmfpBdcvbaevbacvbbdacbdabbbvbacvbsfagvbabvbab",
   "vbabveabvbbeabbeebbcvcbcafsbaebbvbscvbbbvqkBjjbabbejbkcveBdfsfvcsevbscvbscvbshvbsBfvcscvbsbv",
   "bsBfvKisivbnbobnbouvcshvbnboDdvbsBevzsBovgsCrvzBdlvvBdCikDavwkHbvbsjvbsCcvisEhvbsJovbnbobnbo",
   "bnbobnbobnbobnbobnboBekBsvfsbnboBfsbnbobnbobnbobnbobnboqsJwvFbsbnbobnbobnbobnbobnbobnbobnbob",
   "nbobnbobnbobnboClsbnbobnboBgsbnboJysBwvvscvgsBnvcBdBgvbBdEbvBwaBwbbabbdacbbabbbabbbabbeabbba",
   "cbbagbcddabbbabbbabbbabbbabbbabbbabbbabbbabbbabbbabbbabbbabbbabbbabbbabbbabbbabbbabbbabbbabb",
   "babbbabbbabbbabbbabbbabbbabbbabbbabbbabbbabbbabbbabbbabbbabbbabbbabbbabbbabbbabbbabbbabbbabb",
   "babbbabbbabbbabbbabbbacbgvbabbbabbdfbabbfBderbkcrBmbbBdbbfBdbbcBdCeehBdbdbroBdbfxejBdhebBdhe",
   "bBdhebBdhebBdhebBdhebBdhebBdhebBdBgfcrbpbqbpbqdrbpbqbrbpbqjrbmcrbmbrbpbqcrbpbqbnbobnbobnbobn",
   "bofrbdkrcmerbmbrbnnrcvdrbnbobnbobnbobnbobmBiBdBavbBdDlvmBdIgvBaBdmveBdbwdrbvbdbebjbnbobnbobn",
   "bobnbobnbocvbnbobnbobnbobnbobmbncobvjjefcgbmfdcvdjbdbebrcvbBdDiecBdcfcucdbebmDmebrddbefBdBre",
   "bBdDqebBdcvekkvBgeBkvmBdqeBfvbBdkkBevikbvpkBgvkkBnvpkMivJToeCmvBFCfebdBRzedBdCdvjBdBoegdcrKi",
   "ebddrqekiceuBdbabbbabbbabbbabbbabbbabbbabbbabbbabbbabbbabbbabbbabbbabbbabbbabbbabbbabbbabbba",
   "bbbabbbabbbabbbebfdhbrkfbrbdbabbbabbbabbbabbbabbbabbbabbbabbbabbbabbbabbbabbbabbbabbcdcfCsek",
   "jcfgriBdxujdcubabbbabbbabbbabbbabbbabbbadbbabbbabbbabbbabbbabbbabbbabbbabbbabbbabbbabbbabbba",
   "bbbabbbabbbabbbabbbabbbabbbabbbabbbabbbabbbabbbabbbabbbabbbabbbabbbabbbabbbdibbabbbabbcabbba",
   "bbbabbbabbbabbbdcubabbbabbbebabbbadbbabbbabbbabbbabbbabbbabbbabbbabbbabbbabbfabbfabbbabbbabb",
   "babbbabbbabbbabbbabbeabbbabbfBdbabbbBdbbbBdbbbabbbabbyBdddbabbbecdbbhebfdebfeebfxecgcfbgevbf",
   "dBdgkcvbtbvgBdCaeeriBdcgByeqgcfiBdcrkigBdsfgedrbebrcebfkiBceifcrxelfcglBdbrBdedBddfbgBvebfcg",
   "efcgcfdgnrbBdbdkieBdcrfebfbdjekifebBdBpegfcgcfcgcfjBddebfiebfbgcBdkicBderqebdgedvbebgbfbgBye",
   "bfbedfcecffecfbebfbeyBdcebdcrlebgcfcgcrbecdbgbfkBdgecBdgecBdgejBdhebBdhebBdBrbbuedjbbdcueBdD",
   "cbBjecgbfcgbfcgbrbgbfcBdkigBdQNsemBdxeeBdBxeeBdDAuBbJMeBcOcecBdEceBmBdhbmBdfbfBdbebfkebsnebB",
   "dfebBdbebBdcebBdcebBdEeeruqBdNzebobnqvCmecBdCcehBdbvBgBdmebtdvqfhrbnbobrgBdqfbrcmclbnbobnbob",
   "nbobnbobnbobnbobnbobnbocrbnboerdldrbBderbmbnbobnbobnbodrbsbmdsbBdbrbtcreBdfebBdFfecBdbBabBdd",
   "rbtdrbnbobrbsbrbmcrkicrdscrBaabnbrbobublbuBabbnbsbobsbnbobrbnbocrkebdBtecdBfedBdgecBdgecBdge",
   "cBddedBdctbsbubvctbBdbvescvkBddBacvcBdmebBdBaebBdtebBdcebBdpecBdoeBiBdEtefBddreBdBtkdBdjvCbj",
   "ekrvckdvbBdnvdBdbvBvBdBtvbfFaBdBdedBdBxepBdbfBbkeBdBgeekjBduebjiebjfBdBmefffBdBeebBdbrBkeeBd",
   "iebrfjBqBdBoaBobDaecBdkigBdBkaeBdBkbeBdBoeiBdCaelBdbrlabBdpabBdhabBdcabBdlbbBdpbbBdhbbBdcbCp",
   "BdLzejBdwekBdieyBdgdbBdBqdbBdjdCrBdgecBdbebBdBsebBdcedBdbecBdxebBdbrikxecvhkBfeiBdjkBwBdtebB",
   "dcefBdfkwegkdBdbrBaefBdbrCmBdCeeeBdckceqkcBdBukbedfbBdcffBdefeebBddebBdBdecBddfeBdbfjkhBdjrh",
   "BdBdeckbrBdedkBgBdiebvBcecfeBdfkhrjBdCcedBdhrwecBdiktefBdiksehBdermBdhkDcBdCveCdBdBzanBdBzbh",
   "BdgkBkeefiBdkiLiBdBfkbBdBqebBdcfbmcBdceCxBddfBdekkbeiBdwelfekfrwBdseeferBmBdvehkuBdxejBdbgbf",
   "bgCbepfhreBdukkibfcecfbejBddfbgBtedgefcgcfcrbBaerbfkBdbBacBdzehBdkigBddfBkeffbgifbBdkierbecg",
   "beiBdBjebfcrbejBdcfbgBwedgjfcgeeerefbrbgbfkibebrbedrbBduklBdsebBdzedgdfcgbfbgcfgrbfcebfCkBdh",
   "ebBdbebBdeebBdpebBdkebrgBdBvebfdgiffBdkigBdcfcgbBdiecBdcecBdwebBdhebBdcebBdfebBdcfbecgbfegcB",
   "dcgcBddgcBdbegBdbgfBdfecgcBdhfdBdffFjBdCbedgifcgdfbgbfeefrkicrbBdbrbfdeBeBdBwedggfbgbfegcfbg",
   "cfcebrbeiBdkiGkBdBvedgefcBdegcfbgcfxreecfBiBdBwedgifcgbfbgcfdrbelBdkigBdnrtBdBrebfbgbfcggfbg",
   "bfbebrgBdkiCcBdBbecBddfcgefbgffeBdkickdrbvheHdBdBsedgjfbgcfbrDwBdBgaBgbkijkmBdiecBdbecBdiebB",
   "dcebBdyeggbBdcgcBdcfbgbfbebgbebgbfdrjBdkiCsBdiecBdBnedgefcBdcfegbfbebrbebgBbBdbekfBoegfbgbee",
   "firbfiBdbegfcgdfBuenfbgcfdrbefrnBdCvehBdkrJmBdjebBdBlebghfbBdgfbgbfbefrkBdkitkdBdcrBeecBdwfb",
   "BdbghfbgcfbgcfCvBdhebBdcebBdBmegfdBdbfbBdcfbBdhfbebfiBdkigBdgebBdcebBdBgefgbBdcfbBdcgbfbgbfb",
   "ehBdkiLyBdtecfcgcrhBdcfbebgnebBdBiecgffdBdcgbfbgbfnrkiDiBdbepBdvkivetrvnBdbrBJmeDyBdEhjbBdfr",
   "lBdHoeDXkBdDtecrnBdBPgeqBabfgepfFYgBdWleMUbBdVxehBdBfebBdkieBdcrDbebBdkigBdBeecBdffbrkBdBweh",
   "ffrevedbrbvkBdkibBdhkbBdvefBdteBAmBdBgaBgbxkerDxBdCxeeBdbfbeCdghBdefndCmBdcdbrbdbflBdcgoBdJC",
   "aeiBdBVqeBqBdjeNFrBdedbBdhdbBdcdbBdLfepBdbeBdBddecBdbeoBdeeiBdPgeDKuBdEdefBdnedBdjehBdkecBdb",
   "vcfbreBaGYuBdBufcBdxfjBdEmvCiBdJmvkBdBnvcBdCivcgdfdvggiBaifcvhfBevefCjvvBdCovdfbvEsBdukmBduk",
   "mBdDjvjBdzkFfBdBaaBabBaahbbBdsbBaaBabbabBdcacBdbacBdcacBdeabBdiaebbBdbbbBdhbbBdlbBaaBabcabBd",
   "eacBdiabBdhabBdBabcabBdeabBdfabBdbadBdhabBdBabBaaBabBaaBabBaaBabBaaBabBaaBabBaaBcbcBdzabszbb",
   "sgbzabszbbsgbzabszbbsgbzabszbbsgbzabszbbsgbbabbcBdByiTsvCdfevByfivbfovbfcvfrpBdffbBdpfBQmBdk",
   "bbeubgBdgbIfBdhfbBdrfcBdhfbBdcfbBdfffBdCkdBhBdbfEiBdBtedBdhfhdcBdkieBdbebvMiBdBeebfrBdBseefk",
   "ifBdbtRwBdBbebdefkiBCoBdhebBdeebBdcebBdpebBdHpecBdjkhfBpBdBiaBibhfbdeBdkieBdcrBEfBdChkbvdkbt",
   "ekCyBdBtkbvpkHmBdeebBdBbebBdcebBdbecBdbebBdkebBdeebBdbebBdbegBdbeeBdbebBdbebBdbebBddebBdcebB",
   "dbecBdbebBdbebBdbebBdbebBdbebBdcebBdbecBdeebBdhebBdeebBdeebBdbebBdkebBdrefBddebBdfebBdreCaBd",
   "csKkBdBsveBdDwvmBdpvcBdpvbBdpvbBdBlvkBdnkGfvCeBdBdvnBdBsveBdjvhBdcvoBdgvFyBdJrvfuBCaveBdrvdB",
   "dnvdBdEpveBdDrvgBdmveBdbvpBdmveBdCeviBdkvgBdBoviBdBevcBdcvDaBdNcvmBdovcBdnvdBdjvhBdBuvbBdhvi",
   "BdoveBdjvhBdjvhBdFrvbBdCdvBlBdkiBNqBdCLFceBgBdGDuegBdIoecBdINqeoBdLBleEPjBdUweCFyBdHHzefBdGF",
   "geBOMXlBdbBaBeBdDsBaEyBdJgfDSFoBdDSYoBccBdDSYoBccBd"]

/-- The categories by number: the names each may be called by. -/
def categoryNames : List (List String) :=
  [["lu", "uppercaseletter"],
   ["ll", "lowercaseletter"],
   ["lt", "titlecaseletter"],
   ["lm", "modifierletter"],
   ["lo", "otherletter"],
   ["mn", "nonspacingmark"],
   ["mc", "spacingmark"],
   ["me", "enclosingmark"],
   ["nd", "decimalnumber", "digit"],
   ["nl", "letternumber"],
   ["no", "othernumber"],
   ["pc", "connectorpunctuation"],
   ["pd", "dashpunctuation"],
   ["ps", "openpunctuation"],
   ["pe", "closepunctuation"],
   ["pi", "initialpunctuation"],
   ["pf", "finalpunctuation"],
   ["po", "otherpunctuation"],
   ["sm", "mathsymbol"],
   ["sc", "currencysymbol"],
   ["sk", "modifiersymbol"],
   ["so", "othersymbol"],
   ["zs", "spaceseparator"],
   ["zl", "lineseparator"],
   ["zp", "paragraphseparator"],
   ["cc", "control", "cntrl"],
   ["cf", "format"],
   ["cs", "surrogate"],
   ["co", "privateuse"],
   ["cn", "unassigned"]]

/-- Groups of categories: their names and the numbers of their members. -/
def categoryGroups : List (List String × List Nat) :=
  [(["c", "other"], [25, 26, 27, 28, 29]),
   (["l", "letter"], [0, 1, 2, 3, 4]),
   (["lc", "casedletter"], [0, 1, 2]),
   (["m", "mark", "combiningmark"], [5, 6, 7]),
   (["n", "number"], [8, 9, 10]),
   (["p", "punctuation", "punct"], [11, 12, 13, 14, 15, 16, 17]),
   (["s", "symbol"], [18, 19, 20, 21]),
   (["z", "separator"], [22, 23, 24])]

/-- The code points whose category has one of the given numbers. -/
def inCategories (numbers : List Nat) : CodeSet :=
  Partition.select (Partition.ofPacked categoryPartition) numbers.contains

/-- The set of a general category or of a group of them, by name. -/
def category? (name : String) : Option CodeSet :=
  match categoryNames.findIdx? (·.contains name) with
  | some n => some (inCategories [n])
  | none => (categoryGroups.find? fun row => row.1.contains name).map fun row => inCategories row.2

end LineEditor.Unicode
