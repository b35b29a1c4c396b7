import LineEditor.Unicode.Packed

/-!
# Age

The version of the standard that assigned a code point. A version names all code points assigned up
to it.
-/

namespace LineEditor.Unicode

/-- Runs of the age, numbered in the order of `ageNames`; the last number is for the unassigned. -/
def agePartition : List String :=
  ["TiaedBeaidbfbgsddglhoiDlafdcgBvabdkafdrgCsajdbfigfhdgcabdnfejcacjczbadibabpezhabzbabzuabzBsa",
   "bjhabdcfbabdbabdbabdbabdsacebffgehbdmabdCoabdmabdBpabjcdcfedCbacfcacfcacfbiBcacdiachcagiqfei",
   "qjckclipbzBmaczhabtBnabtbabdczcpbmbzrbbhnbkabijabbdhizBbaezbtfalzegbmbpfjbhbajgfjbabobxbhbab",
   "lBaafjtadddgghbloacfCuacdfabdpabdBeacgkafdbgodbzBeddgBbdczdgBehsjBxdbfozChiczdtBukczpkbzBclc",
   "zblbzlsfzBfxbzcxgzixbmbplmgpcqbxirkwlxbtprbqBbmbpbkdabgCbaclsabkblfabkclzacjflbpckcibhcibpda",
   "bziaczcaczwabzhabzbadzeaczbabghaczcaczdabhizbaezcabzfaczvabkcsbtczbgbabgbzgaezcaczwabzhabzca",
   "bzcabzcaczbabzfaezcaczdadzbjhzeabzbahzpabjbtkzdabzhabgbabzdabzwabzhabzcabzfaczkabzdabzdaczba",
   "pzbadgczkabmbghzbqgsbzdabziaczcaczwabzhabzcabzbgeacziabjczcaczdahzbwcaezcabzdacjczlabgglkzca",
   "bzgadzdabzeadzcabzbabzcadzcadzdadziabhdaezfadzdabzeaczbjgzbaozbhmaigfzbpdabtiabzdabzxabzkabp",
   "faczbxbjhabzdabzeahzcabzcjbqczbxczcacjczkahzbuijbrbpcabtiabzdabzxabzkabzfaczcghabzdabzeahzca",
   "gzbxbabzcaciczkabzcibymzbsbpcabwiabzdabzxablqablcsbjgabjbzdabzeablbrezdrbahrbqcacjczkagjdrhj",
   "bzbwcdbzsddzydbzjdbzbdczhddzbdezgdbzbdbzidgzkpczddmzCgaezBdaBlzcabzbabzbucabubabzbubagueabuh",
   "abudabzbabzbacucabunabudaczfabzbabzgabybzkaczcacmBgzCubbzBhbbdcjezBbbelgbbdbbbzvbddhbbdbbddb",
   "zpdbzbjbdchdjekclBlzBidbjfdbjcdbjhddjedgjBadCmjekcjBmabzbmfzbmczBnacfchbabhdmDmafkCqafkDeagk",
   "hdbhCldbhbdbzedczhdbzbdbzedczBndbhbdbzedczBfdbhbdbzedczhdbzbdbzedczhdbhhdbzxdbhBfdbhbdbzedcz",
   "hdbhBndbhtdczclchBcddzBahgzDhdbqczgqczbkYgdjkBdddzDddiphznfbxhfbxjzbxxfjzufmznfbzdfbzcfmzDpd",
   "bgczkdgzkggzpdbxkdgzDkdbthzBqdbjfzCskkzBdgcpbzmgezmgezbgdzBqgczfglzBqhckezBahgzkhbkdzchBggBc",
   "hczchClkbzBdkczlkgzkkgzokczppcwoxBxzCyibxdzBticxbzBrjdmmjgmCalizelCejdzpjdzBzjjrhzBrtczdtimi",
   "zBjkembscpbufzEegDkhhiBcjppesbxbrblbkciFzabbejDmagjwaczgaczBmaczgacziabzbabzbabzbabzBfaczCba",
   "bzpabzoaczgabztaczdabzjabzBvabdxabfgdffcgchbfhhffbjbzeohabfczBbabzfhildzlabbbcddcfehdkblbndp",
   "bqbsbxpzsacdhfbheibjpzCfacdbgbhpfbhcibjdkBwabdbiejbkcqezDnajdmfJiaofbabdErabdbfBedCafcglhmib",
   "kllhperbsBlacdzzlavzFjaufbgFuakfDcaidifuacgcfbhbdDiacdmfchkfiglhbjckcgqhbikjdkejkkbltkblbkel",
   "ykbpeableaclBcablBjablbableadlbabkhaclhaofBfadlyabloablhheibmbjbmclBcfejqfJwdTsfogghhifjeiBp",
   "jdpfjfkBapczBgpbzbwBipdtmpbuipbszteqptbuBvhbxBvhbxnidjbkdjeigjckEdhhkcmfzBthbzbmfzbmczCchcmh",
   "zbhblozblxhjzhhbzhhbzhhbzhhbzhhbzhhbzhhbzhhbzBgjyhejchtjbkkmhpcrfsftbudwlxBizBadbzDldmzIgdBa",
   "zmdezCeadddfbdbabzDgacfczgacfDqabffzBoabjbsbtbzDqabzqayddlfwqhujmzqfBdacgbzBkamkbgpfBcacgbhB",
   "yapfmaegBvabvEpaegDvacgBfabgJTedkwCmgBEXyawhijikbmjqvsftnwdxBSvddzsdcfqdbfmdbfddbfbdjzBwkLoj",
   "uzBgjclsjimBcjgpbqbmDkkizxheifjciEdjclbqclcmmpklbmdpbrbtcpgqctgucxfuewfzcxbzbxbzfxyzdxcwbpcm",
   "blfjBshbwdzkkgzCeiizCrjbrizmjgzBckcqctDgjlzbjBdkdzDakbzlkezckBfpbzCdjjzojczkjczejBckepCpkyzf",
   "kxmkzglczglczgljzhlbzhlbzBwpeqcpcuewezDcqBukczkkgzQNsbmzxkezBxkezDAubJXuacmChfdkczEchBmzhamz",
   "fafzbdzabzfabzbabzcabzcabzEeaqlbxqzObaqxCmaczCcahzbxBgemabfbgcxqfkhgzeadjhpcqvacfcgkabztabze",
   "aezdabfbabzFfaczbabzDqacfDqadzgaczgaczgaczdadzhabzhakzddbcdamgbzBagbztgbzcgbzpgczogBizEtgfzd",
   "gezBtgdzjgCxhcpcrbzmjbwdzbpBvzBujFazBdjdzBxjpzBcpezBfebpeejzdsBbefzBrpfzBegbzbgBkhezohBqzBme",
   "cgBmeDcgczkggzBkrezBkrezBopizCaplzbplxbzpxbzhxbzcxbzlxbzpxbzhxbzcxCpzLzpjzwpkzipyzgxbzBqxbzj",
   "xCrzggczbgbzBsgbzcgdzbgczbgwkbzjkClpizjpBwztqbzcqfzfqBaickdzbiBajfzbjCmzCemezcqcmqqczBuqehbz",
   "chfzihbzdhbzBbhctczdhezjhbthzjhhzBgkBgpBgzBnpezmpjzCckdzBdkczBbkfziksphzepmzhpDczCvkCdzBzqnz",
   "BzqhzgqBotizktLizBfkbzBqwbzdwczcwCxzdyBotizBqtwzBaxBmzBcwuzxujzDalezBelgxjzbpCokbxkzbtczzmhz",
   "kmgzCbmbzomdtbwizBnpjzCvmeqbpcwkmbpfqbzuplzspbzBrpbrdyCkzhqbzbqbzeqbzpqbzlqgzChpfzkpgzbqdpbz",
   "ipczcpczwpbzhpbzcpbzfpbzbtjpczcpczdpczbqgzbpfzhpczhpdzfpFjzDmrbwbrbzbrbtbucwBezCupizkpGkzCcp",
   "czspuqBizCrplzkpgznrtzCembubxgzkmCczBaqbtczpqezqqhxHdzCitDwzDfpmzbphwczbwcziwbzcwbzBewbzcwcz",
   "mwjzkwCsziuczBuuczluBbzCusizCascuxsbtfsnzqxCfphzkyJmzjrbzBtrbzorkzBdrdzBgrczwrbzorCvzhsbzcsb",
   "zBssdzbsbzcsbzjsizksgzgtbzctbzBltbzctbzgthzktLyzzthzrybzBpydzBcyDizbwpzByunzbuBHviBqpbqDyzDv",
   "impbzeibplzHoqDXkzDvxnzBPfkbyjuBdyFYgzWlqMUbzVxlhzBfpbzkpezcpDbxbzkxgzBepczgpkzCspkzkpbzhpbz",
   "vpfztpBAmzDntDxzCrmguezbuBvmjuhzrmCmzbrbscubwlzcwozJBprftguizBDbrSpwBqzjwNFrzexbzhxbzcxbzclK",
   "zsexpzbyBdzduczbyozeuizPgsDKuzEdpfznpdzjphzkpczipGYuzBuxczxxjzEmxCizJmekzBneczbjGyelqcxvzCsh",
   "EszuymzutmzDjgjzsihtFfzDhebzCtebzceczbeczceczeebzmebzbebzeebgcebzCnebzeecziebzhebzBcebzeebzf",
   "ebzbedzhebzNaechczLeeciczByeZcqpzfqbzpqBQmzBfxgzgyIfzhrbzrrczhrbzcrbzfrfzCkyBhzbyEizBtudzouc",
   "zkuezcuMizBfxrzCgufzbuRwzBqyBCozhxbzexbzcxbzpxbzHppczqpBpzCxrbuezkrezcrBEfzCqtCyzCjuHmzembzB",
   "bmbzcmbzbmczbmbzkmbzembzbmbzbmgzbmezbmbzbmbzbmbzdmbzcmbzbmczbmbzbmbzbmbzbmbzbmbzcmbzbmczembz",
   "hmbzembzembzbmbzkmbzrmfzdmbzfmbzrmCazcmKkzBsjezDwjmzplczolbpbzplbzplwpkzlkcpdwBfkbtblbkllbkb",
   "lbkclbkdlbkdlfkilbkhlbkklcmbudwjlbkblckclbkklekclbkklsrbwCezBalbkclnzBikjlbrezjkhzclozgsFyzB",
   "hlmpdqglbpCslbpcqulmpBllbpflepfqmprlhpiqCllbpblbpHalbpelcpbqCklcpemhpfqylspbrBppbrDipflbmqlb",
   "mdlbmblbmblbmblbmdlbmglcmelbmblcmelbmmlcpcqllBwpCslkpbqcrcsbucwezbydxnpdzepdrcsbtbucwdzEmldy",
   "ezfyDhpetbygzmuezbxpzmpezCepizkpgzBopizBepczcwDazmsbwdujqgrbsirisbrcsmrbumrbsdtprnsftbubwetc",
   "wbxbtbuetfqnrgsltcwgudwcuktgubqctiubwbxduxsztDgumzotczeubwdyducxdzduewcyhzgutwexdyhwexdybzby",
   "dwdxizcyhwdxcyezixbyhzhxcyhzFrwbzCdwBlzkwBNozcbCLEtehwcxBgzGDpkexbygzIolczINqqozLBlsEPjzUweC",
   "FwzcbHHzwfzGFgyDFLezcbDSYozcbDSYozcbDSYozcbDSYozcbDSYozcbDSYozcbDSYozcbDSYozcbDSYozcbDSYozcb",
   "bzbeBezDseEyzJggDSFmzHLXibaz"]

/-- The versions, oldest first: the names each may be called by. -/
def ageNames : List (List String) :=
  [["1.1", "v11"],
   ["2.0", "v20"],
   ["2.1", "v21"],
   ["3.0", "v30"],
   ["3.1", "v31"],
   ["3.2", "v32"],
   ["4.0", "v40"],
   ["4.1", "v41"],
   ["5.0", "v50"],
   ["5.1", "v51"],
   ["5.2", "v52"],
   ["6.0", "v60"],
   ["6.1", "v61"],
   ["6.2", "v62"],
   ["6.3", "v63"],
   ["7.0", "v70"],
   ["8.0", "v80"],
   ["9.0", "v90"],
   ["10.0", "v100"],
   ["11.0", "v110"],
   ["12.0", "v120"],
   ["12.1", "v121"],
   ["13.0", "v130"],
   ["14.0", "v140"],
   ["15.0", "v150"]]

/-- The code points assigned in a version or before it, by name. -/
def age? (name : String) : Option CodeSet :=
  (ageNames.findIdx? (·.contains name)).map fun n =>
    Partition.select (Partition.ofPacked agePartition) (· ≤ n)

end LineEditor.Unicode
